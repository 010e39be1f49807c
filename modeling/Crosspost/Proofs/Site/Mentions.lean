/-
  Accounts in descriptions with tags.

  * `Site.unbracketed_profileUrl`: the address of a profile holds no bracket where the user
    name holds none;
  * `Site.marks_mention`: then a mention on a site whose descriptions have tags is text without
    brackets, between the two tags of an element or alone;
  * `Site.exists_ownMention`: on such a site there is a mention of each of its own users.
-/
import Crosspost.Proofs.Description.Brackets
import Crosspost.Proofs.Description.Marked
import Crosspost.Proofs.Site.Handles

namespace Crosspost

/-- A handle is made of parts of the user name. -/
theorem Handle.unbracketed_of_parse? {name : String} {handle : Handle} (hn : Unbracketed name)
    (h : parse? name = some handle) : Unbracketed handle.user ∧ Unbracketed handle.host := by
  have htrim : ∀ c ∈ (Text.trim name).toList, Tag.isAttrChar c = true := by
    intro c hc
    rw [Text.toList_trim] at hc
    exact hn c (Chars.trim_subset _ hc)
  have hparts : ∀ c, c ∈ handle.user.toList ∨ c ∈ handle.host.toList →
      c ∈ (Text.trim name).toList := by
    intro c hc
    rcases (parse?_eq_some_iff.1 h).text with htext | htext <;>
      simp only [htext, String.toList_append, List.mem_append] <;> tauto
  exact ⟨fun c hc => htrim c (hparts c (.inl hc)), fun c hc => htrim c (hparts c (.inr hc))⟩

namespace Site

variable {leads : String → Prop} {site : Site} {name text : String}

theorem unbracketed_afterLastAt (hn : Unbracketed name) :
    Unbracketed (afterLastAt (CodePoints.ofString name)) := by
  refine hn.of_subset fun c hc => ?_
  rw [afterLastAt, CodePoints.text_ofString, String.toList_ofList, List.mem_reverse] at hc
  exact List.mem_reverse.1 ((List.takeWhile_prefix _).subset hc)

theorem unbracketed_without (p : Char → Bool) (hn : Unbracketed name) :
    Unbracketed (CodePoints.without p (CodePoints.ofString name)).text := by
  refine hn.of_subset ?_
  rw [CodePoints.without_ofString, CodePoints.text_ofString, String.toList_ofList]
  exact fun c hc => List.mem_of_mem_filter hc

theorem unbracketed_weasylLogin (hn : Unbracketed name) :
    Unbracketed (weasylLogin (CodePoints.ofString name)) :=
  (unbracketed_without _ hn).lower

/-- **The address of a profile holds no bracket where the user name holds none.** -/
theorem unbracketed_profileUrl (hs : site ∈ builtin) (hn : Unbracketed name) :
    Unbracketed (site.profileUrl (CodePoints.ofString name)) := by
  have hname : Unbracketed (CodePoints.ofString name).text := by
    rwa [CodePoints.text_ofString]
  simp only [builtin, List.mem_cons, List.not_mem_nil, or_false] at hs
  obtain rfl | rfl | rfl | rfl | rfl | rfl | rfl := hs
  · exact .append (by decide) hname
  · exact .append (by decide) (unbracketed_without _ hn)
  · exact .append (by decide) (unbracketed_weasylLogin hn)
  · exact .append (by decide) hname
  · refine .append (.append (by decide) (Unbracketed.lower fun c hc => ?_)) (by decide)
    rw [String.toList_ofList] at hc
    obtain ⟨d, hd, rfl⟩ := List.mem_map.1 hc
    split_ifs
    · decide
    · exact hname d hd
  · exact .append (by decide) (unbracketed_afterLastAt hn)
  · simp only [mastodon]
    split
    · next handle hh =>
      obtain ⟨huser, hhost⟩ := Handle.unbracketed_of_parse? hname hh
      exact .append (.append (.append (by decide) hhost) (by decide)) huser
    · exact hname

/-- The sites whose descriptions have tags. -/
theorem bbcode_cases (hs : site ∈ builtin) (hd : site.dialect = .bbcode) :
    site = aryion ∨ site = furaffinity ∨ site = inkbunny ∨ site = sofurry := by
  have hname : site.dialect.name = "bbcode" := by rw [hd]; rfl
  simp only [builtin, List.mem_cons, List.not_mem_nil, or_false] at hs
  obtain rfl | rfl | rfl | rfl | rfl | rfl | rfl := hs
  · exact .inl rfl
  · exact .inr (.inl rfl)
  · exact absurd hname (by decide)
  · exact .inr (.inr (.inl rfl))
  · exact .inr (.inr (.inr rfl))
  · exact absurd hname (by decide)
  · exact absurd hname (by decide)

/-- A user name between colons. -/
theorem marks_icon (hn : Unbracketed name) : Marks leads (":icon" ++ name ++ ":") :=
  .of_unbracketed (.append (.append (by decide) hn) (by decide))

/-- A user name between the tags that mention a user. -/
theorem marks_iconname (hn : Unbracketed name) :
    Marks leads ("[iconname]" ++ name ++ "[/iconname]") :=
  .element "iconname" (by decide) (by decide +kernel) (.of_unbracketed hn)

/-- **Whatever is mentioned on such a site is text or an element.** -/
theorem marks_mention {owner : Owner} (hs : site ∈ builtin) (hd : site.dialect = .bbcode)
    (hn : Unbracketed name) (h : site.mention owner (CodePoints.ofString name) = some text) :
    Marks leads text := by
  have hname : Unbracketed (CodePoints.ofString name).text := by
    rwa [CodePoints.text_ofString]
  obtain rfl | rfl | rfl | rfl := bbcode_cases hs hd
  · simp only [aryion] at h
    split_ifs at h
    cases h
    exact marks_icon hname
  · simp only [furaffinity] at h
    split_ifs at h
    cases h
    exact marks_icon hname
  · simp only [inkbunny] at h
    split_ifs at h
    · cases h
      exact marks_iconname hname
    · cases h
      exact .element "fa" (by decide) (by decide +kernel) (.of_unbracketed hname)
    · cases h
      exact .element "sf" (by decide) (by decide +kernel) (.of_unbracketed hname)
    · cases h
      exact .element "weasyl" (by decide) (by decide +kernel)
        (.of_unbracketed (unbracketed_weasylLogin hn))
  · simp only [sofurry] at h
    split_ifs at h
    · cases h
      exact marks_icon hname
    · cases h
      exact .of_unbracketed (.append (by decide) hname)
    · cases h
      exact .of_unbracketed (.append (by decide) hname)

/-- Such a site mentions each of its own users. -/
theorem exists_ownMention {name : CodePoints} (hs : site ∈ builtin) (hd : site.dialect = .bbcode)
    (hn : Unbracketed name.text) :
    ∃ text, site.mention site.toOwner name = some text ∧ Marks leads text := by
  obtain rfl | rfl | rfl | rfl := bbcode_cases hs hd
  · exact ⟨_, rfl, marks_icon hn⟩
  · exact ⟨_, rfl, marks_icon hn⟩
  · exact ⟨_, rfl, marks_iconname hn⟩
  · exact ⟨_, rfl, marks_icon hn⟩

end Site

end Crosspost
