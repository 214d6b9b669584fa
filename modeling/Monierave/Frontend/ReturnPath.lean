import Monierave.Unicode.Utf16
import Monierave.Web.Url

/-! # The path to return to after a login

`safeReturnPath` looks at the raw value, but what it returns is written from the parsed URL.
-/

namespace Monierave.Frontend
open Unicode Web

def invalidOrigin : Origin := ⟨.https, "monierave.invalid", none⟩

/-- `none` is a value that is null or undefined, and the result null. -/
def safeReturnPath (parser : Parser) (value : Option (List UInt16)) : Option (List UInt16) :=
  match value with
  | none => none
  | some value =>
    if value = [] ∨ ¬ [0x2f] <+: value ∨ [0x2f, 0x2f] <+: value ∨ 0x5c ∈ value then none
    else
      match newUrl parser invalidOrigin (scalarValues value) with
      | some parsed =>
        if parsed.origin = invalidOrigin then
          some (utf16 (parsed.pathname ++ parsed.search ++ parsed.hash))
        else none
      | none => none

structure SafeReturn (parser : Parser) (path : List UInt16) : Prop where
  slash : [0x2f] <+: path
  not_authority : ¬ [0x2f, 0x2f] <+: path
  not_backslash : ¬ [0x2f, 0x5c] <+: path
  same_origin : ∀ base, ∃ url,
    newUrl parser base (scalarValues path) = some url ∧ url.origin = base
  stable : safeReturnPath parser (some path) = some path

theorem scalarValues_slash (us : List UInt16) :
    scalarValues (0x2f :: us) = '/' :: scalarValues us := scalarValues_cons rfl us

theorem safeReturnPath_eq_some_iff {parser : Parser} {value path : List UInt16} :
    safeReturnPath parser (some value) = some path ↔
      (∃ us, value = 0x2f :: us) ∧ ¬ [0x2f, 0x2f] <+: value ∧ 0x5c ∉ value ∧
        ∃ parsed, newUrl parser invalidOrigin (scalarValues value) = some parsed ∧
          parsed.origin = invalidOrigin ∧ path = utf16 parsed.reference := by
  have hslash : (∃ us, value = 0x2f :: us) ↔ [0x2f] <+: value := by
    rw [List.prefix_iff_exists_append_eq]
    exact exists_congr fun us => eq_comm
  rw [hslash]
  unfold safeReturnPath
  dsimp only
  split_ifs with hguard
  · have hne : [0x2f] <+: value → value ≠ [] := by
      rintro ⟨us, rfl⟩
      exact List.cons_ne_nil _ _
    constructor
    · intro h
      cases h
    · rintro ⟨h₁, h₂, h₃, _⟩
      exact absurd hguard (by tauto)
  · have hpassed : [0x2f] <+: value ∧ ¬ [0x2f, 0x2f] <+: value ∧ 0x5c ∉ value := by tauto
    cases newUrl parser invalidOrigin (scalarValues value) with
    | none => simp
    | some parsed =>
      by_cases horigin : parsed.origin = invalidOrigin
      · simp only [horigin, if_true, Option.some.injEq, hpassed, not_false_eq_true, true_and,
          exists_eq_left']
        exact eq_comm
      · simp [horigin]

section
variable {parser : Parser} {value : List UInt16} {parsed : Url}

theorem prepare_of_slash (hslash : ∃ us, value = 0x2f :: us) :
    ∃ rest, prepare (scalarValues value) = '/' :: rest := by
  obtain ⟨us, rfl⟩ := hslash
  rw [scalarValues_slash]
  exact prepare_slash _

theorem clean_of_slash (hslash : ∃ us, value = 0x2f :: us)
    (h : newUrl parser invalidOrigin (scalarValues value) = some parsed) : parsed.Clean := by
  obtain ⟨rest, hrest⟩ := prepare_of_slash hslash
  exact newUrl_clean hrest h

theorem backslash_not_mem (hslash : ∃ us, value = 0x2f :: us) (hvalue : 0x5c ∉ value)
    (h : newUrl parser invalidOrigin (scalarValues value) = some parsed) :
    0x5c ∉ utf16 parsed.reference := by
  intro hmem
  obtain ⟨rest, hrest⟩ := prepare_of_slash hslash
  have hchar : '\\' ∈ parsed.reference := mem_of_unit_mem_utf16 (by decide) hmem
  have hinput := backslash_mem_of_newUrl hrest h hchar
  exact hvalue (unit_mem_of_mem_scalarValues (by decide) hinput)

theorem safeReturn_of_not_doubled (hclean : parsed.Clean) (hdoubled : ¬ parsed.StartsDoubled)
    (hbackslash : 0x5c ∉ utf16 parsed.reference) : SafeReturn parser (utf16 parsed.reference) := by
  obtain ⟨s, ss, hpath⟩ := List.exists_cons_of_ne_nil hclean.path_ne
  have href := reference_eq hpath
  have hread := newUrl_reference hclean hdoubled parser
  have hslash : ∃ us, utf16 parsed.reference = 0x2f :: us := ⟨_, by rw [href]; rfl⟩
  have hauthority : ¬ [0x2f, 0x2f] <+: utf16 parsed.reference := by
    rintro ⟨us, hus⟩
    have hchars := scalarValues_utf16 parsed.reference
    rw [← hus, List.cons_append, List.singleton_append, scalarValues_slash, scalarValues_slash,
      href, List.cons_inj_right] at hchars
    exact absurd (isSlash_of_reference hclean hdoubled hpath hchars.symm) (by decide)
  refine ⟨?_, hauthority, ?_, ?_, ?_⟩
  · obtain ⟨us, hus⟩ := hslash
    exact ⟨us, hus.symm⟩
  · rintro ⟨us, hus⟩
    refine hbackslash ?_
    rw [← hus]
    simp
  · intro base
    rw [scalarValues_utf16]
    exact ⟨_, hread base, rfl⟩
  · rw [safeReturnPath_eq_some_iff, scalarValues_utf16]
    refine ⟨hslash, hauthority, hbackslash, _, hread invalidOrigin, rfl, ?_⟩
    rw [reference_of_read]

end

/-- A returned path is safe exactly if the segments of the value do not lead to an empty one
at the start that another follows: dot segments are taken out of the value after its first
characters were looked at. -/
theorem safeReturnPath_safe_iff {parser : Parser} {value path : List UInt16}
    (h : safeReturnPath parser (some value) = some path) :
    SafeReturn parser path ↔
      ¬ Doubled 0 (segments (pathText (prepare (scalarValues value)).tail)) := by
  obtain ⟨hslash, -, hbackslash, parsed, hparsed, -, rfl⟩ := safeReturnPath_eq_some_iff.mp h
  have hclean := clean_of_slash hslash hparsed
  obtain ⟨rest, hrest⟩ := prepare_of_slash hslash
  rw [hrest, List.tail_cons, ← startsDoubled_iff hrest hparsed]
  constructor
  · rintro hsafe ⟨s, ss, hpath⟩
    refine hsafe.not_authority ?_
    rw [reference_eq hpath]
    exact ⟨_, rfl⟩
  · intro hdoubled
    exact safeReturn_of_not_doubled hclean hdoubled
      (backslash_not_mem hslash hbackslash hparsed)

def evilParser : Parser where
  authority := fun scheme cs =>
    if cs = "evil.com".toList then some ⟨scheme, "evil.com", none⟩ else none
  elsewhere := fun _ _ => none

theorem safeReturnPath_safe_app :
    SafeReturn evilParser (utf16 "/app?currency=USD#activity".toList) := by
  have hreturned : safeReturnPath evilParser (some (utf16 "/x/../app?currency=USD#activity".toList)) =
      some (utf16 "/app?currency=USD#activity".toList) := by decide +kernel
  have hempty : [] ∉ segments (pathText
      (prepare (scalarValues (utf16 "/x/../app?currency=USD#activity".toList))).tail) := by
    decide +kernel
  refine (safeReturnPath_safe_iff hreturned).mpr ?_
  rintro ⟨before, after, hsegments, _⟩
  rw [hsegments] at hempty
  exact hempty (by simp)

/-- The dot segment goes, and what is left leads to another host. -/
theorem safeReturnPath_leaves_origin :
    safeReturnPath evilParser (some (utf16 "/.//evil.com".toList)) =
        some (utf16 "//evil.com".toList) ∧
      (newUrl evilParser ⟨.https, "monierave.com", none⟩
        (scalarValues (utf16 "//evil.com".toList))).map (·.origin) =
          some ⟨.https, "evil.com", none⟩ ∧
      safeReturnPath evilParser (some (utf16 "//evil.com".toList)) = none := by
  decide +kernel

end Monierave.Frontend
