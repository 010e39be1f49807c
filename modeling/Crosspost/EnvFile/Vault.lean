/-
  Encrypted files of environment variables.

  A variable of such a file holds a sealed text in base 64: a nonce of twelve
  bytes, the encrypted bytes, and a tag of sixteen.

  * `Vault.open?` is the text that the first fitting key opens.
-/
import Crosspost.EnvFile.Format
import Crosspost.EnvFile.VaultKey
import Crosspost.EnvFile.Encoding

namespace Crosspost.Vault

/-- The text that was sealed with a key. -/
def unseal? (key : Gcm.Key) (bytes : List UInt8) : Option String :=
  let tagStart := bytes.length - 16
  let opened := Gcm.open? key (bytes.take 12) ((bytes.take tagStart).drop 12) (bytes.drop tagStart)
  opened.map fun bytes => .ofList (Encoding.decodeUtf8 bytes)

/-- The text that one key opens among the variables of a file. -/
def openWith? (entries : Variables) (key : String) : Option String := do
  let key ← VaultKey.parse? (Text.trim key)
  let sealed ← entries.lookup key.entry
  let cipherKey ← key.cipherKey?
  unseal? cipherKey (Base64.decode sealed.toList)

/-- The text that the first fitting one of some keys opens; there is a comma
    between two keys. -/
def open? (entries : Variables) (keys : String) : Option String :=
  (Text.splitOn ',' keys).findSome? (openWith? entries)

end Crosspost.Vault
