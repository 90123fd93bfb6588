import Mathlib.Data.List.Basic
import KernelReplay.Tracer.Version
import KernelReplay.Word

/-
  The grammar of versions. A text, without the white space around it, is read as a version exactly if
  it has the form of one: three numerals with dots between them, each the decimal digits of a word of
  32 bits, and a rest that begins with neither digit nor dot (`TracerVersion.Form`). A numeral may have
  zeros in front and the rest may hold anything after its first character, so a text can differ from
  what the version that it is read as is written as; what is written is read back all the same, and of
  all versions exactly those whose suffix a text can have (`TracerVersion.ofString_form`).
-/

namespace KernelReplay.TracerVersion

/-! ## Parts between dots -/

theorem splitDots_of_not_mem {part : List Char} (h : '.' ∉ part) : splitDots part = [part] := by
  induction part with
  | nil => rfl
  | cons c rest ih =>
    obtain ⟨hc, hrest⟩ := not_or.1 (mt List.mem_cons.2 h)
    rw [splitDots, if_neg (Ne.symm hc), ih hrest]

theorem splitDots_append {part : List Char} (h : '.' ∉ part) (rest : List Char) :
    splitDots (part ++ '.' :: rest) = part :: splitDots rest := by
  induction part with
  | nil => rfl
  | cons c part ih =>
    obtain ⟨hc, hpart⟩ := not_or.1 (mt List.mem_cons.2 h)
    rw [List.cons_append, splitDots, if_neg (Ne.symm hc), ih hpart]

theorem splitDots_ne_nil (text : List Char) : splitDots text ≠ [] := by
  by_cases hdot : '.' ∈ text
  · obtain ⟨first, rest, rfl, hfirst⟩ := List.eq_append_cons_of_mem hdot
    rw [splitDots_append hfirst]
    exact List.cons_ne_nil _ _
  · rw [splitDots_of_not_mem hdot]
    exact List.cons_ne_nil _ _

/-- The first part ends at the first dot. -/
theorem splitDots_eq_cons {text part : List Char} {parts : List (List Char)}
    (h : splitDots text = part :: parts) : '.' ∉ part ∧
      (parts = [] ∧ text = part ∨ ∃ rest, text = part ++ '.' :: rest ∧ splitDots rest = parts) := by
  by_cases hdot : '.' ∈ text
  · obtain ⟨first, rest, rfl, hfirst⟩ := List.eq_append_cons_of_mem hdot
    rw [splitDots_append hfirst] at h
    obtain ⟨rfl, hrest⟩ := List.cons.inj h
    exact ⟨hfirst, Or.inr ⟨rest, rfl, hrest⟩⟩
  · rw [splitDots_of_not_mem hdot] at h
    obtain ⟨rfl, hnil⟩ := List.cons.inj h
    exact ⟨hdot, Or.inl ⟨hnil.symm, rfl⟩⟩

theorem splitDots_eq_triple_iff {text a b c : List Char} : splitDots text = [a, b, c] ↔
    text = a ++ '.' :: (b ++ '.' :: c) ∧ '.' ∉ a ∧ '.' ∉ b ∧ '.' ∉ c := by
  constructor
  · intro h
    obtain ⟨ha, ⟨hnil, -⟩ | ⟨afterA, rfl, hafterA⟩⟩ := splitDots_eq_cons h
    · cases hnil
    obtain ⟨hb, ⟨hnil, -⟩ | ⟨afterB, rfl, hafterB⟩⟩ := splitDots_eq_cons hafterA
    · cases hnil
    obtain ⟨hc, ⟨-, rfl⟩ | ⟨afterC, -, hafterC⟩⟩ := splitDots_eq_cons hafterB
    · exact ⟨rfl, ha, hb, hc⟩
    · exact (splitDots_ne_nil afterC hafterC).elim
  · rintro ⟨rfl, ha, hb, hc⟩
    rw [splitDots_append ha, splitDots_append hb, splitDots_of_not_mem hc]

/-! ## Numerals -/

/-- The digits write a word of 32 bits. -/
structure Numeral (digits : List Char) : Prop where
  nonempty : digits ≠ []
  isDigit : ∀ d ∈ digits, d.isDigit = true
  fits : Nat.ofDigitChars 10 digits 0 ≤ 0xFFFF_FFFF

/-- The word that digits write. -/
def word (digits : List Char) : UInt32 := .ofNat (Nat.ofDigitChars 10 digits 0)

theorem Numeral.no_dot {digits : List Char} (h : Numeral digits) : '.' ∉ digits := fun hmem =>
  absurd (h.isDigit '.' hmem) (by decide)

theorem component_eq_ok_iff {text part : List Char} {n : UInt32} :
    component text part = .ok n ↔
      part ≠ [] ∧ Nat.ofDigitChars 10 part 0 ≤ 0xFFFF_FFFF ∧ word part = n := by
  have hvalue : digitsValue part = Nat.ofDigitChars 10 part 0 := rfl
  have hword : Nat.ofDigitChars 10 part 0 < 1 <<< 32 ↔ Nat.ofDigitChars 10 part 0 ≤ 0xFFFF_FFFF :=
    Nat.lt_iff_le_pred (by decide)
  unfold component
  dsimp only
  by_cases hnil : part = []
  · rw [if_pos hnil]
    exact ⟨nofun, fun h => (h.1 hnil).elim⟩
  rw [if_neg hnil, hvalue]
  by_cases hfits : Nat.ofDigitChars 10 part 0 ≤ 0xFFFF_FFFF
  · rw [if_pos (hword.2 hfits)]
    exact ⟨fun h => ⟨hnil, hfits, Except.ok.inj h⟩, fun h => congrArg _ h.2.2⟩
  · rw [if_neg (mt hword.1 hfits)]
    exact ⟨nofun, fun h => (hfits h.2.1).elim⟩

/-- A word is written as a numeral. -/
theorem numeral_toDigits (n : UInt32) : Numeral (Nat.toDigits 10 n.toNat) where
  nonempty := Nat.toDigits_ne_nil
  isDigit _ hd := Nat.isDigit_of_mem_toDigits (by decide) (by decide) hd
  fits := by
    rw [Nat.ofDigitChars_ten_toDigits]
    have hlt := n.toNat_lt
    omega

theorem word_toDigits (n : UInt32) : word (Nat.toDigits 10 n.toNat) = n := by
  unfold word
  rw [Nat.ofDigitChars_ten_toDigits, UInt32.ofNat_toNat]

/-! ## The form of a version -/

/-- The parts of a text that has the form of a version. -/
structure Form where
  major : List Char
  minor : List Char
  patch : List Char
  /-- What follows the numerals. -/
  rest : List Char

namespace Form

/-- The numerals, with dots between them. -/
def numbers (f : Form) : List Char := f.major ++ '.' :: (f.minor ++ '.' :: f.patch)

/-- The text of the parts. -/
def text (f : Form) : List Char := f.numbers ++ f.rest

/-- The version that the parts write. -/
def version (f : Form) : TracerVersion where
  major := word f.major
  minor := word f.minor
  patch := word f.patch
  suffix := if f.rest = [] then none else some (.ofList f.rest)

/-- What may follow the numerals: nothing, or what begins with neither digit nor dot. -/
def Follows (rest : List Char) : Prop := ∀ c ∈ rest.head?, ¬ c.isDigit = true ∧ c ≠ '.'

/-- The parts are three numerals and what may follow them. -/
structure Valid (f : Form) : Prop where
  major : Numeral f.major
  minor : Numeral f.minor
  patch : Numeral f.patch
  rest : Follows f.rest

variable {f : Form}

theorem Follows.dropWhile {rest : List Char} (h : Follows rest) :
    rest.takeWhile isNumeric = [] ∧ rest.dropWhile isNumeric = rest := by
  cases rest with
  | nil => exact ⟨rfl, rfl⟩
  | cons c rest =>
    obtain ⟨hdigit, hdot⟩ := h c rfl
    simp [isNumeric, hdigit, hdot]

theorem follows_dropWhile (text : List Char) : Follows (text.dropWhile isNumeric) := by
  intro c hc
  have hnot := List.head?_dropWhile_not isNumeric text
  rw [Option.mem_def.1 hc] at hnot
  simpa [isNumeric] using hnot

theorem Valid.isNumeric (h : f.Valid) : ∀ c ∈ f.numbers, TracerVersion.isNumeric c = true := by
  intro c hc
  have hnumeral : ∀ {digits}, Numeral digits → c ∈ digits → TracerVersion.isNumeric c = true :=
    fun hn hmem => by simp [TracerVersion.isNumeric, hn.isDigit c hmem]
  simp only [numbers, List.mem_append, List.mem_cons] at hc
  rcases hc with hc | rfl | hc | rfl | hc
  · exact hnumeral h.major hc
  · rfl
  · exact hnumeral h.minor hc
  · rfl
  · exact hnumeral h.patch hc

/-- The numerals of a valid form end where its rest begins. -/
theorem Valid.split (h : f.Valid) :
    f.text.takeWhile TracerVersion.isNumeric = f.numbers ∧
      f.text.dropWhile TracerVersion.isNumeric = f.rest := by
  obtain ⟨hnone, hall⟩ := h.rest.dropWhile
  unfold text
  rw [List.takeWhile_append_of_pos h.isNumeric, List.dropWhile_append_of_pos h.isNumeric, hnone, hall]
  exact ⟨List.append_nil _, rfl⟩

/-- A part of the numbers of a text that is no dot is a digit. -/
theorem isDigit_of_part {text part : List Char} (h : ∀ c ∈ text, TracerVersion.isNumeric c = true)
    (hsub : part ⊆ text) (hdot : '.' ∉ part) : ∀ c ∈ part, c.isDigit = true := by
  intro c hc
  have hnumeric := h c (hsub hc)
  have hne : c ≠ '.' := fun heq => hdot (heq ▸ hc)
  simpa [TracerVersion.isNumeric, hne] using hnumeric

end Form

open Form

/-- A text is read as what its form says, if it has one. -/
theorem ofChars_eq_ok_iff {text : List Char} {v : TracerVersion} :
    ofChars text = .ok v ↔ ∃ f : Form, f.Valid ∧ trimBlank text = f.text ∧ f.version = v := by
  unfold ofChars
  dsimp only
  generalize trimBlank text = text
  constructor
  · intro h
    split at h
    · rename_i a b c hparts
      obtain ⟨hnumbers, ha, hb, hc⟩ := splitDots_eq_triple_iff.1 hparts
      have hdigits : ∀ {part}, part ⊆ text.takeWhile isNumeric → '.' ∉ part →
          ∀ c ∈ part, c.isDigit = true :=
        isDigit_of_part fun c hc => List.all_eq_true.1 List.all_takeWhile c hc
      simp only [checked_bind_eq_ok_iff, component_eq_ok_iff, Except.ok.injEq] at h
      obtain ⟨_, ⟨hane, hafits, rfl⟩, _, ⟨hbne, hbfits, rfl⟩, _, ⟨hcne, hcfits, rfl⟩, rfl⟩ := h
      rw [hnumbers] at hdigits
      refine ⟨⟨a, b, c, text.dropWhile isNumeric⟩, ⟨⟨hane, hdigits ?_ ha, hafits⟩,
        ⟨hbne, hdigits ?_ hb, hbfits⟩, ⟨hcne, hdigits ?_ hc, hcfits⟩, follows_dropWhile text⟩, ?_, rfl⟩
      · simp
      · intro d hd
        simp [hd]
      · intro d hd
        simp [hd]
      · show text = (a ++ '.' :: (b ++ '.' :: c)) ++ _
        rw [← hnumbers, List.takeWhile_append_dropWhile]
    · cases h
  · rintro ⟨f, hf, rfl, rfl⟩
    obtain ⟨hnumbers, hrest⟩ := hf.split
    have hparts : splitDots f.numbers = [f.major, f.minor, f.patch] :=
      splitDots_eq_triple_iff.2 ⟨rfl, hf.major.no_dot, hf.minor.no_dot, hf.patch.no_dot⟩
    rw [hnumbers, hrest, hparts]
    have hcomponent : ∀ {digits}, Numeral digits → component f.text digits = .ok (word digits) :=
      fun hn => component_eq_ok_iff.2 ⟨hn.nonempty, hn.fits, rfl⟩
    dsimp only
    rw [hcomponent hf.major, hcomponent hf.minor, hcomponent hf.patch]
    rfl

/-! ## Writing and reading back -/

/-- The form that a version is written in. -/
def Form.ofVersion (v : TracerVersion) : Form where
  major := Nat.toDigits 10 v.major.toNat
  minor := Nat.toDigits 10 v.minor.toNat
  patch := Nat.toDigits 10 v.patch.toNat
  rest := (v.suffix.getD "").toList

theorem toList_render (v : TracerVersion) : v.render.toList = (Form.ofVersion v).text := by
  simp [render, Form.ofVersion, Form.text, Form.numbers, toString, Nat.toList_repr]

/-- A suffix that a text can have: it is not empty, begins with neither digit nor dot, and does not end
in white space. -/
structure Suffix (x : String) : Prop where
  nonempty : x ≠ ""
  follows : Form.Follows x.toList
  trimmed : ∀ c ∈ x.toList.getLast?, isBlank c = false

/-- The suffix of a version, if it has one, is one that a text can have. -/
def Readable (v : TracerVersion) : Prop := ∀ x, v.suffix = some x → Suffix x

theorem Form.valid_ofVersion {v : TracerVersion} (h : v.Readable) : (Form.ofVersion v).Valid where
  major := numeral_toDigits v.major
  minor := numeral_toDigits v.minor
  patch := numeral_toDigits v.patch
  rest := by
    unfold Form.ofVersion
    cases hx : v.suffix with
    | none => exact fun c hc => by cases hc
    | some x => exact (h x hx).follows

theorem Form.version_ofVersion {v : TracerVersion} (h : v.Readable) :
    (Form.ofVersion v).version = v := by
  have hsuffix : (if (v.suffix.getD "").toList = [] then none
      else some (String.ofList (v.suffix.getD "").toList)) = v.suffix := by
    cases hx : v.suffix with
    | none => rfl
    | some x =>
      have hne : x.toList ≠ [] := fun hnil => (h x hx).nonempty (String.toList_eq_nil_iff.1 hnil)
      rw [Option.getD_some, if_neg hne, String.ofList_toList]
  unfold Form.version Form.ofVersion
  dsimp only
  rw [word_toDigits, word_toDigits, word_toDigits, hsuffix]

/-- No text begins in white space that begins with a numeral. -/
theorem Form.Valid.isBlank_head {f : Form} (h : f.Valid) : ∀ c ∈ f.text.head?, isBlank c = false := by
  intro c hc
  unfold Form.text Form.numbers at hc
  rw [List.append_assoc, List.head?_append_of_ne_nil _ h.major.nonempty] at hc
  exact isBlank_of_isDigit (h.major.isDigit c (List.mem_of_mem_head? hc))

/-- What ends a text is the end of its suffix, if it has one, and a digit otherwise. -/
theorem Form.Valid.isBlank_last {f : Form} (h : f.Valid) (hrest : ∀ c ∈ f.rest.getLast?, isBlank c = false) :
    ∀ c ∈ f.text.getLast?, isBlank c = false := by
  intro c hc
  unfold Form.text at hc
  by_cases hnil : f.rest = []
  · have hlast : (f.numbers ++ f.rest).getLast? = f.patch.getLast? := by
      have hsplit : f.numbers = (f.major ++ '.' :: f.minor ++ ['.']) ++ f.patch := by
        simp [Form.numbers]
      rw [hnil, List.append_nil, hsplit, List.getLast?_append_of_ne_nil _ h.patch.nonempty]
    rw [hlast] at hc
    exact isBlank_of_isDigit (h.patch.isDigit c (List.mem_of_mem_getLast? hc))
  · rw [List.getLast?_append_of_ne_nil _ hnil] at hc
    exact hrest c hc

/-- A version whose suffix a text can have is written in its form, and read back from it. -/
theorem Readable.ofString_render {v : TracerVersion} (h : v.Readable) : ofString v.render = .ok v := by
  have hvalid := Form.valid_ofVersion h
  refine ofChars_eq_ok_iff.2 ⟨Form.ofVersion v, hvalid, ?_, Form.version_ofVersion h⟩
  rw [toList_render]
  refine trimBlank_eq_self hvalid.isBlank_head (hvalid.isBlank_last fun c hc => ?_)
  unfold Form.ofVersion at hc
  cases hx : v.suffix with
  | none =>
    rw [hx] at hc
    cases hc
  | some x =>
    rw [hx] at hc
    exact (h x hx).trimmed c hc

/-- Whatever is read has a suffix that a text can have, or none. -/
theorem readable_of_ofString {s : String} {v : TracerVersion} (h : ofString s = .ok v) : v.Readable := by
  obtain ⟨f, hf, htext, rfl⟩ := ofChars_eq_ok_iff.1 h
  intro x hx
  have hsuffix : (if f.rest = [] then none else some (String.ofList f.rest)) = some x := hx
  split at hsuffix
  · cases hsuffix
  · rename_i hne
    obtain rfl := Option.some.inj hsuffix
    refine ⟨fun hempty => hne ?_, ?_, fun c hc => ?_⟩
    · rw [← String.toList_ofList (l := f.rest), hempty]
      rfl
    · rw [String.toList_ofList]
      exact hf.rest
    · rw [String.toList_ofList] at hc
      refine isBlank_last_trimBlank s.toList c ?_
      rw [htext]
      unfold Form.text
      rwa [List.getLast?_append_of_ne_nil _ hne]

/-- The grammar of versions. A text is read as a version exactly if, without the white space around it,
it has the form of one, and then as the version that the form says. Whatever is read is read back from
what it is written as, and so are exactly the versions whose suffix a text can have. -/
theorem ofString_form (s : String) (v : TracerVersion) :
    (ofString s = .ok v ↔ ∃ f : Form, f.Valid ∧ trimBlank s.toList = f.text ∧ f.version = v) ∧
    (ofString s = .ok v → ofString v.render = .ok v) ∧
    (ofString v.render = .ok v ↔ v.Readable) :=
  ⟨ofChars_eq_ok_iff, fun h => (readable_of_ofString h).ofString_render,
    fun h => readable_of_ofString h, Readable.ofString_render⟩

/-- Zeros in front of a number, and a suffix with digits, dots and white space inside, between white
space of two kinds. -/
def paddedText : String := "\u2003 002.7.4294967295-rc1. 5 pre\n"

/-- The version is read, and read back from a text without the zeros and the space around it. -/
theorem ofString_form_paddedText : ∃ v, ofString paddedText = .ok v ∧
    v.suffix = some "-rc1. 5 pre" ∧ v.render = "2.7.4294967295-rc1. 5 pre" ∧
    ofString v.render = .ok v := by
  have hread : ofString paddedText = .ok
      { major := 2, minor := 7, patch := 4294967295, suffix := some "-rc1. 5 pre" } := by
    rfl
  exact ⟨_, hread, rfl, by decide +kernel, (ofString_form paddedText _).2.1 hread⟩

end KernelReplay.TracerVersion
