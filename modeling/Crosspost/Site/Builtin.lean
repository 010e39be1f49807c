/-
  The built-in destination sites.

  * `Site.builtin` lists them in their canonical order.
-/
import Crosspost.Site.Basic
import Crosspost.Site.Handle

namespace Crosspost.Site

/-! ## User names

A user name may hold halves of surrogate pairs. They are shown one by one, unless
what stands between two of them is left out.
-/

/-- The part of a name after its last `@`. -/
def afterLastAt (name : CodePoints) : String :=
  .ofList (name.text.toList.reverse.takeWhile (· != '@')).reverse

/-- A name without its spaces. -/
def withoutSpaces (name : CodePoints) : String := (name.without (· == ' ')).text

/-- A name as it stands in the address of a Weasyl profile. -/
def weasylLogin (name : CodePoints) : String := Text.lower (withoutSpaces name)

/-- A mention for sites without links or icons. -/
def spelledMention (owner : Owner) (name : CodePoints) : String :=
  if owner.id = "twitter" then "@" ++ afterLastAt name ++ " on Twitter"
  else
    let handle? := if owner.id = "mastodon" then Handle.parse? name.text else none
    match handle? with
    | some handle => "@" ++ handle.user ++ " on " ++ handle.host
    | none => name.text ++ " on " ++ owner.name

/-! ## Sites -/

/-- Eka's Portal. -/
def aryion : Site where
  id := "aryion"
  name := "Eka's Portal"
  aliases := ["aryion", "eka", "eka_portal"]
  dialect := .bbcode
  outputFile := "desc_aryion.txt"
  profileUrl name := "https://aryion.com/g4/user/" ++ name.text
  mention owner name := if owner.id = "aryion" then some (":icon" ++ name.text ++ ":") else none

/-- Fur Affinity, whose addresses leave underscores out. -/
def furaffinity : Site where
  id := "furaffinity"
  name := "Fur Affinity"
  aliases := ["furaffinity", "fa"]
  dialect := .bbcode
  outputFile := "desc_furaffinity.txt"
  profileUrl name := "https://furaffinity.net/user/" ++ (name.without (· == '_')).text
  nameStep := some .replace
  mention owner name :=
    if owner.id = "furaffinity" then some (":icon" ++ name.text ++ ":") else none

/-- Weasyl, which has shorthands for the users of three other sites. -/
def weasyl : Site where
  id := "weasyl"
  name := "Weasyl"
  aliases := ["weasyl"]
  dialect := .markdown
  outputFile := "desc_weasyl.md"
  profileUrl name := "https://www.weasyl.com/~" ++ weasylLogin name
  nameStep := some .replace
  mention owner name :=
    if owner.id = "weasyl" then some ("<!~" ++ withoutSpaces name ++ ">")
    else if owner.id = "furaffinity" then some ("<fa:" ++ name.text ++ ">")
    else if owner.id = "inkbunny" then some ("<ib:" ++ name.text ++ ">")
    else if owner.id = "sofurry" then some ("<sf:" ++ name.text ++ ">")
    else none

/-- Inkbunny, which has tags for the users of three other sites. -/
def inkbunny : Site where
  id := "inkbunny"
  name := "Inkbunny"
  aliases := ["inkbunny", "ib"]
  dialect := .bbcode
  outputFile := "desc_inkbunny.txt"
  profileUrl name := "https://inkbunny.net/" ++ name.text
  mention owner name :=
    if owner.id = "inkbunny" then some ("[iconname]" ++ name.text ++ "[/iconname]")
    else if owner.id = "furaffinity" then some ("[fa]" ++ name.text ++ "[/fa]")
    else if owner.id = "sofurry" then some ("[sf]" ++ name.text ++ "[/sf]")
    else if owner.id = "weasyl" then some ("[weasyl]" ++ weasylLogin name ++ "[/weasyl]")
    else none

/-- SoFurry, whose users have a subdomain each. -/
def sofurry : Site where
  id := "sofurry"
  name := "SoFurry"
  aliases := ["sofurry", "sf"]
  dialect := .bbcode
  outputFile := "desc_sofurry.txt"
  profileUrl name :=
    "https://" ++ Text.lower (.ofList (name.text.toList.map fun c => if c = ' ' then '-' else c)) ++
      ".sofurry.com"
  nameStep := some .replace
  mention owner name :=
    if owner.id = "sofurry" then some (":icon" ++ name.text ++ ":")
    else if owner.id = "furaffinity" then some ("fa!" ++ name.text)
    else if owner.id = "inkbunny" then some ("ib!" ++ name.text)
    else none

/-- Twitter, which takes plain text and spells every mention out. -/
def twitter : Site where
  id := "twitter"
  name := "Twitter"
  aliases := ["twitter"]
  dialect := .plaintext
  outputFile := "desc_twitter.txt"
  profileUrl name := "https://twitter.com/" ++ afterLastAt name
  nameStep := some .split
  mention owner name :=
    if owner.id = "twitter" then some ("@" ++ afterLastAt name)
    else some (spelledMention owner name)

/-- Mastodon, whose user names are handles on an instance. -/
def mastodon : Site where
  id := "mastodon"
  name := "Mastodon"
  aliases := ["mastodon"]
  dialect := .plaintext
  outputFile := "desc_mastodon.txt"
  profileUrl name := match Handle.parse? name.text with
    | some handle => "https://" ++ handle.host ++ "/@" ++ handle.user
    | none => name.text
  nameStep := some .trim
  mention owner name :=
    if owner.id = "mastodon" then (Handle.parse? name.text).map Handle.mention
    else some (spelledMention owner name)
  checkUsername name :=
    if (Handle.parse? name).isSome then none
    else some ("Mastodon username \"" ++ name ++ "\" must look like user@instance")

/-- The built-in sites in their canonical order. -/
def builtin : List Site := [aryion, furaffinity, weasyl, inkbunny, sofurry, twitter, mastodon]

end Crosspost.Site
