/-
  Keys of encrypted files of environment variables.

  A key is an address `scheme://:password@host/path?environment=name`. Its
  password ends with the digits of the cipher key, and its query names the
  environment whose variables it opens.

  * `VaultKey.parse?` reads such an address, and refuses one that has no password
    or no environment;
  * `VaultKey.cipherKey?` is the key of the cipher, and `VaultKey.entry` the
    name of the variable that holds what it opens.
-/
import Crosspost.EnvFile.Gcm
import Crosspost.EnvFile.Address

namespace Crosspost

/-- What opens an encrypted file. -/
structure VaultKey where
  /-- The text that ends with the digits of the cipher key. -/
  password : List Char
  /-- The name of the environment. -/
  environment : List Char
  deriving DecidableEq, Repr

namespace VaultKey

/-- The key that an address spells. -/
def parse? (text : String) : Option VaultKey := do
  let address ← Address.parse? text
  let environment ← address.value? "environment"
  if address.password.isEmpty || environment.isEmpty then none
  else some ⟨address.password, environment⟩

/-- The key of the cipher: the last 64 characters of the password are its
    digits. -/
def cipherKey? (key : VaultKey) : Option Gcm.Key :=
  Gcm.Key.ofBytes? (Chars.hexBytes (key.password.drop (key.password.length - 64)))

/-- The letters with an upper-case form in the letters from A to Z, beside those
    from a to z. -/
def capitals : List (Char × String) :=
  [('ß', "SS"), ('ı', "I"), ('ſ', "S"), ('ﬀ', "FF"), ('ﬁ', "FI"), ('ﬂ', "FL"), ('ﬃ', "FFI"),
    ('ﬄ', "FFL"), ('ﬅ', "ST"), ('ﬆ', "ST")]

/-- A name in capitals, as far as they are letters from A to Z. -/
def capitalize (cs : List Char) : List Char :=
  cs.flatMap fun c => match capitals.lookup c with
    | some s => s.toList
    | none => [c.toUpper]

/-- The name of the variable that holds what the key opens. -/
def entry (key : VaultKey) : String :=
  "DOTENV_VAULT_" ++ .ofList (capitalize key.environment)

end VaultKey

end Crosspost
