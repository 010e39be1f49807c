/-
  Handles as they are written.

  * `Handle.Spelled h s`: the text spells the handle, with white space around it and perhaps an
    `@` before it;
  * `Handle.parse?_eq_some_iff`: **what is read from a text is the handle that it spells**;
  * `Handle.parse?_written`, `Handle.parse?_mention`: a handle that is written out is read
    again;
  * `Site.profileUrl_mastodon`, `Site.mention_mastodon`: what the built-in sites make of the
    handle of an account.
-/
import Mathlib.Tactic.Common
import Crosspost.Proofs.Text.Trimming
import Crosspost.Site.Builtin

namespace Crosspost

namespace Handle

/-! ## The form of a handle -/

/-- A part of a handle: neither `@` nor white space. -/
def IsPart (cs : List Char) : Prop := ∀ c ∈ cs, c ≠ '@' ∧ isBlank c = false

/-- A text spells a handle: between white space stand perhaps an `@`, a user, an `@` and an
    instance, which has a dot with something on each side. -/
structure Spelled (h : Handle) (s : String) : Prop where
  text : Text.trim s = h.user ++ "@" ++ h.host ∨ Text.trim s = "@" ++ h.user ++ "@" ++ h.host
  user_ne : h.user ≠ ""
  user : IsPart h.user.toList
  host : IsPart h.host.toList
  dot : ∃ a b, a ≠ "" ∧ b ≠ "" ∧ h.host = a ++ "." ++ b

theorem all_isPartChar {cs : List Char} : cs.all isPartChar = true ↔ IsPart cs := by
  simp [IsPart, isPartChar]

/-- Inside a text, apart from both ends, stands a dot. -/
theorem any_dot_iff {cs : List Char} : ((cs.drop 1).dropLast.any (· == '.')) = true ↔
    ∃ a b, a ≠ [] ∧ b ≠ [] ∧ cs = a ++ '.' :: b := by
  rw [List.any_beq', List.contains_iff_mem]
  constructor
  · intro h
    cases cs with
    | nil => cases h
    | cons c cs =>
      obtain ⟨p, q, hpq⟩ := List.append_of_mem h
      obtain ⟨d, hd⟩ : ∃ d, cs = cs.dropLast ++ [d] := by
        have hne : cs ≠ [] := by
          rintro rfl
          cases h
        exact ⟨cs.getLast hne, (List.dropLast_append_getLast hne).symm⟩
      have hcs : cs.dropLast = p ++ '.' :: q := hpq
      refine ⟨c :: p, q ++ [d], by simp, by simp, ?_⟩
      rw [hd, hcs]
      simp
  · rintro ⟨a, b, ha, hb, rfl⟩
    obtain ⟨c, a, rfl⟩ := List.exists_cons_of_ne_nil ha
    have hlast : ('.' :: b).dropLast = '.' :: b.dropLast := List.dropLast_cons_of_ne_nil hb
    rw [List.cons_append, List.drop_succ_cons, List.drop_zero,
      List.dropLast_append_of_ne_nil (List.cons_ne_nil _ _), hlast]
    simp

theorem isHost_iff {host : String} : isHost host.toList = true ↔
    IsPart host.toList ∧ ∃ a b, a ≠ "" ∧ b ≠ "" ∧ host = a ++ "." ++ b := by
  rw [isHost, Bool.and_eq_true, all_isPartChar, any_dot_iff]
  refine and_congr_right fun _ => ?_
  constructor
  · rintro ⟨a, b, ha, hb, h⟩
    refine ⟨.ofList a, .ofList b, by simpa using ha, by simpa using hb, ?_⟩
    apply String.toList_injective
    simp [h]
  · rintro ⟨a, b, ha, hb, rfl⟩
    exact ⟨a.toList, b.toList, by simpa using ha, by simpa using hb, by simp⟩

/-- The parts of a handle are found around the first `@`. -/
theorem ofParts?_eq_some_iff {cs : List Char} {h : Handle} : ofParts? cs = some h ↔
    cs = h.user.toList ++ '@' :: h.host.toList ∧ h.user ≠ "" ∧ IsPart h.user.toList ∧
      isHost h.host.toList = true := by
  constructor
  · intro hp
    unfold ofParts? at hp
    dsimp only at hp
    split at hp
    · cases hp
    · next at' host hrest =>
      split_ifs at hp with hparts
      cases hp
      simp only [Bool.and_eq_true, all_isPartChar] at hparts
      obtain ⟨⟨hne, huser⟩, hhost⟩ := hparts
      obtain rfl : at' = '@' := by
        have hhead := List.head?_dropWhile_not (· != '@') cs
        rw [hrest] at hhead
        simpa using hhead
      rw [String.toList_ofList, String.toList_ofList]
      refine ⟨?_, by simpa using hne, huser, hhost⟩
      rw [← hrest]
      exact List.takeWhile_append_dropWhile.symm
  · rintro ⟨rfl, hne, huser, hhost⟩
    obtain ⟨user, host⟩ := h
    dsimp only at hne huser hhost ⊢
    have hkeep : ∀ c ∈ user.toList, (c != '@') = true := fun c hc => by simpa using (huser c hc).1
    have htake : (user.toList ++ '@' :: host.toList).takeWhile (· != '@') = user.toList := by
      rw [List.takeWhile_append_of_pos hkeep, List.takeWhile_cons_of_neg (by simp),
        List.append_nil]
    have hdrop : (user.toList ++ '@' :: host.toList).dropWhile (· != '@') = '@' :: host.toList := by
      rw [List.dropWhile_append_of_pos hkeep, List.dropWhile_cons_of_neg (by simp)]
    have hnonempty : (!user.toList.isEmpty) = true := by simpa using hne
    unfold ofParts?
    simp only [htake, hdrop, hnonempty, all_isPartChar.2 huser, hhost, Bool.and_self, if_true,
      String.ofList_toList]

/-- No part starts with the sign that stands before a handle. -/
theorem IsPart.append_ne {user rest cs : List Char} (h : IsPart user) (hne : user ≠ []) :
    user ++ rest ≠ '@' :: cs := by
  obtain ⟨c, user, rfl⟩ := List.exists_cons_of_ne_nil hne
  intro he
  exact (h c List.mem_cons_self).1 (List.cons.inj he).1

/-- **What is read from a text is the handle that it spells.** -/
theorem parse?_eq_some_iff {s : String} {h : Handle} : parse? s = some h ↔ h.Spelled s := by
  have htext : ∀ t : String, Text.trim s = t ↔ Chars.trim s.toList = t.toList := by
    intro t
    rw [← Text.toList_trim, String.toList_inj]
  have hplain : (h.user ++ "@" ++ h.host).toList = h.user.toList ++ '@' :: h.host.toList := by simp
  have hsigned : ("@" ++ h.user ++ "@" ++ h.host).toList =
      '@' :: (h.user.toList ++ '@' :: h.host.toList) := by simp
  constructor
  · intro hp
    have hparts : ∀ {cs}, ofParts? cs = some h → (cs = h.user.toList ++ '@' :: h.host.toList →
        Text.trim s = h.user ++ "@" ++ h.host ∨ Text.trim s = "@" ++ h.user ++ "@" ++ h.host) →
          h.Spelled s := by
      intro cs hof htrim
      obtain ⟨hcs, hne, huser, hhost⟩ := ofParts?_eq_some_iff.1 hof
      exact ⟨htrim hcs, hne, huser, (isHost_iff.1 hhost).1, (isHost_iff.1 hhost).2⟩
    unfold parse? at hp
    split at hp
    · next cs hat =>
      refine hparts hp fun hcs => .inr ?_
      rw [htext, hat, hcs, hsigned]
    · exact hparts hp fun hcs => .inl (by rw [htext, hcs, hplain])
  · rintro ⟨htrim, hne, huser, hhost, hdot⟩
    have hof : ofParts? (h.user.toList ++ '@' :: h.host.toList) = some h :=
      ofParts?_eq_some_iff.2 ⟨rfl, hne, huser, isHost_iff.2 ⟨hhost, hdot⟩⟩
    unfold parse?
    rcases htrim with htrim | htrim
    · rw [htext, hplain] at htrim
      rw [htrim]
      split
      · next cs hat => exact absurd hat (huser.append_ne (by simpa using hne))
      · exact hof
    · rw [htext, hsigned] at htrim
      rw [htrim]
      exact hof

/-! ## Handles written out -/

variable {h : Handle} {s : String}

/-- A text spells some handle. -/
def Readable (s : String) : Prop := ∃ h, parse? s = some h

/-- The address of the profile of a handle. -/
def profile (h : Handle) : String := "https://" ++ h.host ++ "/@" ++ h.user

theorem Spelled.trim_written (hs : h.Spelled s) :
    Text.trim (h.user ++ "@" ++ h.host) = h.user ++ "@" ++ h.host ∧
      Text.trim ("@" ++ h.user ++ "@" ++ h.host) = "@" ++ h.user ++ "@" ++ h.host := by
  have hkeep : ∀ t : String, (∀ c ∈ t.toList, isBlank c = false) → Text.trim t = t := by
    intro t ht
    rw [Text.trim, Chars.trim_of_forall_not ht, String.ofList_toList]
  have hparts : ∀ c ∈ (h.user ++ "@" ++ h.host).toList, isBlank c = false := by
    intro c hc
    simp only [String.toList_append, List.mem_append] at hc
    rcases hc with (hc | hc) | hc
    · exact (hs.user c hc).2
    · rw [List.mem_singleton.1 hc]
      decide
    · exact (hs.host c hc).2
  have hsigned : ("@" ++ h.user ++ "@" ++ h.host).toList =
      '@' :: (h.user ++ "@" ++ h.host).toList := by simp
  refine ⟨hkeep _ hparts, hkeep _ fun c hc => ?_⟩
  rw [hsigned, List.mem_cons] at hc
  rcases hc with rfl | hc
  · decide
  · exact hparts c hc

/-- **A handle that is written out is read again.** -/
theorem parse?_written (hs : parse? s = some h) :
    parse? (h.user ++ "@" ++ h.host) = some h ∧
      parse? ("@" ++ h.user ++ "@" ++ h.host) = some h := by
  have hspelled := parse?_eq_some_iff.1 hs
  obtain ⟨hplain, hsigned⟩ := hspelled.trim_written
  exact ⟨parse?_eq_some_iff.2 { hspelled with text := .inl hplain },
    parse?_eq_some_iff.2 { hspelled with text := .inr hsigned }⟩

/-- The mention of a handle is one way to write it. -/
theorem parse?_mention (hs : parse? s = some h) : parse? h.mention = some h :=
  (parse?_written hs).2

end Handle

/-! ## Accounts with a handle -/

namespace Site

variable {h : Handle} {name : CodePoints}

/-- Mastodon accepts the names that spell handles. -/
theorem checkUsername_mastodon {s : String} :
    mastodon.checkUsername s = none ↔ Handle.Readable s := by
  simp only [mastodon, ite_eq_left_iff, Option.isSome_iff_exists, Handle.Readable, reduceCtorEq,
    imp_false, not_not]

/-- A configuration refuses the names that Mastodon does not accept. -/
theorem refusal?_mastodon {s : String} : mastodon.refusal? s = none ↔ Handle.Readable s := by
  rw [← checkUsername_mastodon]
  simp only [refusal?, Option.filter_eq_none_iff, mastodon]
  split_ifs <;> simp

/-- The address of the profile of a handle is made of its parts. -/
theorem profileUrl_mastodon (hn : Handle.parse? name.text = some h) :
    mastodon.profileUrl name = h.profile := by
  simp only [mastodon, hn, Handle.profile]

/-- A site shows a handle as a mention, or not at all. -/
def handleMention (site : Site) (h : Handle) : Option String :=
  if site.id = "mastodon" then some ("@" ++ h.user ++ "@" ++ h.host)
  else if site.id = "twitter" then some ("@" ++ h.user ++ " on " ++ h.host)
  else none

/-- The mention of a handle is made of its parts. -/
theorem mention_mastodon {site : Site} (hs : site ∈ builtin)
    (hn : Handle.parse? name.text = some h) :
    site.mention mastodon.toOwner name = site.handleMention h := by
  simp only [builtin, List.mem_cons, List.not_mem_nil, or_false] at hs
  obtain rfl | rfl | rfl | rfl | rfl | rfl | rfl := hs
  case inr.inr.inr.inr.inr.inl => simp [twitter, mastodon, handleMention, spelledMention, hn]
  case inr.inr.inr.inr.inr.inr => simp [mastodon, handleMention, hn, Handle.mention]
  all_goals rfl

end Site

end Crosspost
