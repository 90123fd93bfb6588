import KernelReplay.Json.Shape

/-
  Reading back what is written. A text or an integer is read from what is written of it, whatever
  follows an integer in a text that `render` writes; and a container from what is written of its
  parts (`reads_render`). So a value that breaks off nowhere is all that its text says
  (`ofText_render`). Whether it is accepted as a part of something else depends on how deep its
  containers nest.
-/

namespace KernelReplay.Json

/-! ## Texts -/

theorem hexValue?_hexDigit : ∀ n < 16, hexValue? (hexDigit n) = some n := by decide

section Texts

variable {c : Char} (rest : List Char)

/-- What reading a text gives after one more code point. -/
def afterUnit (unit : Nat) (read : Option (List Nat × List Char)) : Option (List Nat × List Char) :=
  read.map fun p => (unit :: p.1, p.2)

theorem textUnits?_backslash (h : c ≠ 'u') {unit : Nat} (hunit : escaped? c = some unit) :
    textUnits? ('\\' :: c :: rest) = afterUnit unit (textUnits? rest) := by
  rw [textUnits?]
  · rw [hunit]
    cases textUnits? rest <;> rfl
  · intro _ _ _ _ _ hc _
    exact h hc

theorem textUnits?_unit {a b d e : Char} {unit : Nat} (hunit : hexUnit? a b d e = some unit) :
    textUnits? ('\\' :: 'u' :: a :: b :: d :: e :: rest) = afterUnit unit (textUnits? rest) := by
  rw [textUnits?, hunit]
  cases textUnits? rest <;> rfl

theorem textUnits?_plain (hquote : c ≠ '"') (hslash : c ≠ '\\') (hlow : ¬ c.toNat < 0x20) :
    textUnits? (c :: rest) = afterUnit c.toNat (textUnits? rest) := by
  have hplain : (decide (c.toNat < 0x20) || decide (c = '\\')) = false := by simp [hslash, hlow]
  rw [textUnits?]
  · rw [hplain]
    cases textUnits? rest <;> rfl
  · exact hquote
  · intro _ _ _ _ _ hc _
    exact hslash hc
  · intro _ _ hc _
    exact hslash hc

/-- A letter after a backslash is read as the character that it stands for. -/
theorem escaped?_escapeLetter? {letter : Char} (h : escapeLetter? c = some letter) :
    letter ≠ 'u' ∧ escaped? letter = some c.toNat := by
  unfold escapeLetter? at h
  repeat' split at h
  all_goals first
    | (subst_vars; cases h; exact ⟨by decide, by decide⟩)
    | cases h

/-- A character that no letter stands for is none of those that have to be escaped. -/
theorem ne_of_escapeLetter? (h : escapeLetter? c = none) : c ≠ '"' ∧ c ≠ '\\' := by
  constructor
  · rintro rfl
    cases h
  · rintro rfl
    cases h

/-- What is written of a character is read as its code point. -/
theorem textUnits?_escape (c : Char) :
    textUnits? (escape c ++ rest) = afterUnit c.toNat (textUnits? rest) := by
  unfold escape
  split
  · rename_i letter hletter
    obtain ⟨hne, hunit⟩ := escaped?_escapeLetter? hletter
    exact textUnits?_backslash rest hne hunit
  rename_i hnone
  split
  · refine textUnits?_unit rest ?_
    have hzero : hexValue? '0' = some 0 := by decide
    have hhigh := hexValue?_hexDigit (c.toNat / 16) (by omega)
    have hlow := hexValue?_hexDigit (c.toNat % 16) (by omega)
    simp only [hexUnit?, hzero, hhigh, hlow, bind, Option.bind]
    congr 1
    omega
  · rename_i hlow
    obtain ⟨hquote, hslash⟩ := ne_of_escapeLetter? (Option.eq_none_iff_forall_ne_some.2 hnone)
    exact textUnits?_plain rest hquote hslash hlow

theorem textUnits?_escaped (cs : List Char) :
    textUnits? (cs.flatMap escape ++ '"' :: rest) = some (cs.map Char.toNat, rest) := by
  induction cs with
  | nil => rw [List.flatMap_nil, List.nil_append, textUnits?]; rfl
  | cons c cs ih =>
    rw [List.flatMap_cons, List.append_assoc, textUnits?_escape, ih]
    rfl

end Texts

/-- No character is half of a surrogate pair. -/
theorem pairUp?_toNat (cs : List Char) : pairUp? (cs.map Char.toNat) = some cs := by
  induction cs with
  | nil => rw [List.map_nil, pairUp?]
  | cons c cs ih =>
    have hvalid : c.toNat < 0xD800 ∨ 0xDFFF < c.toNat ∧ c.toNat < 0x110000 := c.valid
    have hfirst : ¬ (0xD800 ≤ c.toNat ∧ c.toNat < 0xDC00) := by omega
    have hsecond : ¬ (0xDC00 ≤ c.toNat ∧ c.toNat < 0xE000) := by omega
    rw [List.map_cons, pairUp?.eq_def]
    dsimp only
    rw [if_neg hfirst, if_neg hsecond, ih, Option.map_some, Char.ofNat_toNat]

/-- A text in quotes is read as the text. -/
theorem scalar?_quote (s : String) (rest : List Char) :
    scalar? ((quote s).toList ++ rest) = some (ofString s, rest) := by
  have hquoted : (quote s).toList ++ rest =
      '"' :: (s.toList.flatMap escape ++ '"' :: rest) := by
    simp [quote]
  rw [hquoted]
  show text? _ = _
  rw [text?, textUnits?_escaped]
  show some (Json.text ((pairUp? (s.toList.map Char.toNat)).map String.ofList), rest) = _
  rw [pairUp?_toNat, Option.map_some, String.ofList_toList]
  rfl

/-! ## Numbers -/

/-- What may follow a value within a text: an end of a container, a comma or nothing. -/
def Follows (rest : List Char) : Prop := ∀ c ∈ rest.head?, c = ',' ∨ c = ']' ∨ c = '\x7d'

theorem digits_append {ds rest : List Char} (hds : ∀ d ∈ ds, d.isDigit = true)
    (hrest : ∀ c ∈ rest.head?, c.isDigit = false) : digits (ds ++ rest) = (ds, rest) := by
  unfold digits
  rw [List.takeWhile_append_of_pos hds, List.dropWhile_append_of_pos hds]
  cases rest with
  | nil => simp
  | cons c rest =>
    have hc : c.isDigit = false := hrest c rfl
    simp [hc]

theorem decimal_toDigits (n : Nat) : decimal (Nat.toDigits 10 n) = n :=
  Nat.ofDigitChars_ten_toDigits

/-- A leading zero is the only digit. -/
theorem eq_nil_of_toDigits {n : Nat} {ds : List Char} (h : Nat.toDigits 10 n = '0' :: ds) :
    ds = [] := by
  induction n using Nat.strongRecOn generalizing ds with
  | ind n ih =>
    rw [Nat.toDigits_eq_if (by decide)] at h
    split at h
    · exact (List.cons.inj h).2.symm
    · rename_i hle
      cases hfront : Nat.toDigits 10 (n / 10) with
      | nil => exact (Nat.toDigits_ne_nil hfront).elim
      | cons d front =>
        -- The digits of `n / 10` lead with the same zero, so that it is zero itself.
        rw [hfront] at h
        obtain ⟨rfl, -⟩ := List.cons.inj h
        rw [ih (n / 10) (by omega) hfront] at hfront
        have hzero := decimal_toDigits (n / 10)
        rw [hfront] at hzero
        have hlt : n / 10 = 0 := hzero.symm
        omega

theorem isDigit_toDigits (n : Nat) : ∀ d ∈ Nat.toDigits 10 n, d.isDigit = true :=
  fun _ hd => Nat.isDigit_of_mem_toDigits (by decide) (by decide) hd

theorem whole?_toDigits (n : Nat) {rest : List Char} (hrest : ∀ c ∈ rest.head?, c.isDigit = false) :
    whole? (Nat.toDigits 10 n ++ rest) = some (Nat.toDigits 10 n, rest) := by
  unfold whole?
  rw [digits_append (isDigit_toDigits n) hrest]
  dsimp only
  split
  · rename_i hnil
    exact (Nat.toDigits_ne_nil hnil).elim
  · rename_i hzero
    cases eq_nil_of_toDigits hzero
  · rfl

namespace Follows

variable {rest : List Char} (h : Follows rest)

include h

theorem not_digit : ∀ c ∈ rest.head?, c.isDigit = false := by
  intro c hc
  rcases h c hc with rfl | rfl | rfl <;> decide

theorem fraction?_eq : fraction? rest = some (none, rest) := by
  unfold fraction?
  split
  · exact absurd (h _ rfl) (by decide)
  · rfl

theorem exponent?_eq : exponent? rest = some (none, rest) := by
  unfold exponent?
  split
  · rename_i e rest
    have hne : ¬ (e = 'e' ∨ e = 'E') := by
      rcases h e rfl with rfl | rfl | rfl <;> decide
    rw [if_neg hne]
  · rfl

end Follows

/-- The digits of an integer, with its sign, are read as the integer. -/
theorem number?_toDigits (negative : Bool) (n : Nat) {cs rest : List Char} {i : Int}
    (hcs : minus cs = (negative, Nat.toDigits 10 n ++ rest)) (hrest : Follows rest)
    (hi : (if negative then -(n : Int) else n) = i) (hzero : negative = true → n ≠ 0)
    (hle : -0x8000_0000_0000_0000 ≤ i) (hge : i ≤ maxWord) :
    number? cs = some (.integer i, rest) := by
  have hsign : (!(negative && decide (i = 0))) = true := by
    cases negative with
    | false => rfl
    | true =>
      have hne : i ≠ 0 := by
        have := hzero rfl
        rw [if_pos rfl] at hi
        omega
      simp [hne]
  simp only [number?, hcs, whole?_toDigits n hrest.not_digit, hrest.fraction?_eq,
    hrest.exponent?_eq, bind, Option.bind, Spelling.value, decimal_toDigits, hi]
  simp [hle, hge, hsign]

theorem scalar?_of_number {c : Char} {cs : List Char} (h : c = '-' ∨ c.isDigit = true) :
    scalar? (c :: cs) = number? (c :: cs) := by
  have hquote : c ≠ '"' := by
    rintro rfl
    revert h
    decide
  rw [scalar?]
  · rw [if_pos (by simpa using h)]
  · exact hquote

/-- What is written of an integer is read as the integer. -/
theorem scalar?_toString {i : Int} (hle : -0x8000_0000_0000_0000 ≤ i) (hge : i ≤ maxWord)
    {rest : List Char} (hrest : Follows rest) :
    scalar? ((toString i).toList ++ rest) = some (.integer i, rest) := by
  cases i with
  | ofNat n =>
    have hwritten : (toString (Int.ofNat n)).toList = Nat.toDigits 10 n := Nat.toList_repr
    rw [hwritten]
    cases hds : Nat.toDigits 10 n with
    | nil => exact (Nat.toDigits_ne_nil hds).elim
    | cons d ds =>
      have hd : d.isDigit = true := isDigit_toDigits n d (hds ▸ List.mem_cons_self)
      rw [List.cons_append, scalar?_of_number (Or.inr hd)]
      refine number?_toDigits false n ?_ hrest rfl (by simp) hle hge
      rw [hds, List.cons_append]
      unfold minus
      split
      · rename_i hminus
        rw [(List.cons.inj hminus).1] at hd
        exact absurd hd (by decide)
      · rfl
  | negSucc n =>
    have hwritten : (toString (Int.negSucc n)).toList = '-' :: Nat.toDigits 10 (n + 1) := by
      show ("-" ++ (n + 1).repr).toList = _
      rw [String.toList_append, Nat.toList_repr]
      rfl
    rw [hwritten, List.cons_append, scalar?_of_number (Or.inl rfl)]
    exact number?_toDigits true (n + 1) rfl hrest rfl (by simp) hle hge

/-! ## Tokens -/

theorem scalar?_of_space {c : Char} (h : isSpace c = true) (cs : List Char) :
    scalar? (c :: cs) = none := by
  simp only [isSpace, Bool.or_eq_true, decide_eq_true_eq] at h
  rcases h with ((rfl | rfl) | rfl) | rfl <;> rfl

theorem scalar?_of_bracket {c : Char} {token : Token} (h : bracket? c = some token)
    (cs : List Char) : scalar? (c :: cs) = none := by
  unfold bracket? at h
  repeat' split at h
  all_goals first
    | (subst_vars; rfl)
    | cases h

theorem tokens_nil : tokens [] = [] := by
  rw [tokens]

theorem tokens_bracket {c : Char} {token : Token} (h : bracket? c = some token)
    (cs : List Char) : tokens (c :: cs) = token :: tokens cs := by
  have hspace : ¬ isSpace c = true := by
    intro hc
    simp only [isSpace, Bool.or_eq_true, decide_eq_true_eq] at hc
    rcases hc with ((rfl | rfl) | rfl) | rfl <;> cases h
  rw [tokens, if_neg hspace, h]

/-- A value without parts is one token. -/
theorem tokens_scalar {cs rest : List Char} {v : Json} (h : scalar? cs = some (v, rest)) :
    tokens cs = .scalar v :: tokens rest := by
  cases cs with
  | nil => cases h
  | cons c cs =>
    have hspace : ¬ isSpace c = true := fun hc => by
      rw [scalar?_of_space hc] at h
      cases h
    have hbracket : bracket? c = none := by
      cases hc : bracket? c with
      | none => rfl
      | some token =>
        rw [scalar?_of_bracket hc] at h
        cases h
    rw [tokens, if_neg hspace, hbracket]
    dsimp only
    split
    · rename_i v' after hread
      rw [h] at hread
      obtain ⟨rfl, rfl⟩ := Prod.mk.inj (Option.some.inj hread)
      rfl
    · rename_i hread
      rw [h] at hread
      cases hread

/-! ## Reading tokens -/

/-- From the front of the tokens a value is read whole. -/
def ReadsValue (ts : List Token) (v : Json) (rest : List Token) : Prop :=
  ∃ h, readValue ts = .whole v rest h

/-- From the front of the tokens the items of an array are read, and the bracket after them. -/
def ReadsItems (ts : List Token) (items : List Json) (rest : List Token) : Prop :=
  ∃ h, readItems ts = .whole items rest h

/-- From the front of the tokens the members of an object are read, and the bracket after them. -/
def ReadsMembers (ts : List Token) (members : List (Option String × Json)) (rest : List Token) :
    Prop :=
  ∃ h, readMembers ts = .whole members rest h

section Reading

variable {ts ts' rest : List Token} {v : Json} {items : List Json} {key : Option String}
  {members : List (Option String × Json)}

theorem readsValue_scalar (v : Json) (rest : List Token) :
    ReadsValue (.scalar v :: rest) v rest := by
  unfold ReadsValue
  rw [readValue]
  exact ⟨_, rfl⟩

theorem readsValue_emptyArray (rest : List Token) :
    ReadsValue (.openArray :: .closeArray :: rest) (.array [] true) rest := by
  unfold ReadsValue
  rw [readValue]
  exact ⟨_, rfl⟩

theorem not_endsArray (h : ReadsItems ts items rest) : endsArray ts = false := by
  obtain ⟨_, h⟩ := h
  unfold endsArray
  split
  · rw [readItems, readValue] at h
    · cases h
    all_goals simp
  · rfl

theorem not_endsObject (h : ReadsMembers ts members rest) : endsObject ts = false := by
  obtain ⟨_, h⟩ := h
  unfold endsObject
  split
  · rw [readMembers] at h
    · cases h
    all_goals simp
  · rfl

theorem ReadsItems.array (h : ReadsItems ts items rest) :
    ReadsValue (.openArray :: ts) (.array items true) rest := by
  have hends : ¬ endsArray ts = true := Bool.eq_false_iff.1 (not_endsArray h)
  obtain ⟨_, h⟩ := h
  unfold ReadsValue
  rw [readValue, if_neg hends, h]
  exact ⟨_, rfl⟩

theorem ReadsValue.lastItem (h : ReadsValue ts v (.closeArray :: rest)) :
    ReadsItems ts [v] rest := by
  obtain ⟨_, h⟩ := h
  unfold ReadsItems
  rw [readItems, h]
  exact ⟨_, rfl⟩

theorem ReadsValue.nextItem (h : ReadsValue ts v (.comma :: ts')) (h' : ReadsItems ts' items rest) :
    ReadsItems ts (v :: items) rest := by
  obtain ⟨_, h⟩ := h
  obtain ⟨_, h'⟩ := h'
  unfold ReadsItems
  rw [readItems, h]
  dsimp only
  rw [h']
  exact ⟨_, rfl⟩

theorem readsValue_emptyObject (rest : List Token) :
    ReadsValue (.openObject :: .closeObject :: rest) (.object [] true) rest := by
  unfold ReadsValue
  rw [readValue]
  exact ⟨_, rfl⟩

theorem ReadsMembers.object (h : ReadsMembers ts members rest) :
    ReadsValue (.openObject :: ts) (.object members true) rest := by
  have hends : ¬ endsObject ts = true := Bool.eq_false_iff.1 (not_endsObject h)
  obtain ⟨_, h⟩ := h
  unfold ReadsValue
  rw [readValue, if_neg hends, h]
  exact ⟨_, rfl⟩

theorem ReadsValue.lastMember (h : ReadsValue ts v (.closeObject :: rest)) :
    ReadsMembers (.scalar (.text key) :: .colon :: ts) [(key, v)] rest := by
  obtain ⟨_, h⟩ := h
  unfold ReadsMembers
  rw [readMembers, h]
  exact ⟨_, rfl⟩

theorem ReadsValue.nextMember (h : ReadsValue ts v (.comma :: ts'))
    (h' : ReadsMembers ts' members rest) :
    ReadsMembers (.scalar (.text key) :: .colon :: ts) ((key, v) :: members) rest := by
  obtain ⟨_, h⟩ := h
  obtain ⟨_, h'⟩ := h'
  unfold ReadsMembers
  rw [readMembers, h]
  dsimp only
  rw [h']
  exact ⟨_, rfl⟩

end Reading

/-! ## Whole values -/

mutual

/-- The value is written so that all of it can be read: its containers are closed, and its integers
are words. -/
def IsPlain : Json → Prop
  | null | bool _ => True
  | integer i => -0x8000_0000_0000_0000 ≤ i ∧ i ≤ maxWord
  | text content => content.isSome
  | array items closed => AllPlain items ∧ closed = true
  | object members closed => MembersPlain members ∧ closed = true
  | real .. | torn => False

/-- Each of a list of values is plain. -/
def AllPlain : List Json → Prop
  | [] => True
  | v :: rest => v.IsPlain ∧ AllPlain rest

/-- Each of a list of members is plain. -/
def MembersPlain : List (Option String × Json) → Prop
  | [] => True
  | (key, v) :: rest => key.isSome ∧ v.IsPlain ∧ MembersPlain rest

end

theorem follows_nil : Follows [] := by
  rintro _ ⟨⟩

theorem follows_cons {c : Char} (h : c = ',' ∨ c = ']' ∨ c = '\x7d') (rest : List Char) :
    Follows (c :: rest) := by
  rintro _ ⟨⟩
  exact h

mutual

/-- A plain value is read from what is written of it. What follows a part of a container is a comma
or the bracket that ends the container, so that an integer ends where it was written to. -/
theorem reads_render : ∀ (v : Json), v.IsPlain → ∀ {rest : List Char}, Follows rest →
    ReadsValue (tokens (v.render.toList ++ rest)) v (tokens rest)
  | null, _, rest, _ => by
    have hread : scalar? (null.render.toList ++ rest) = some (null, rest) := rfl
    rw [tokens_scalar hread]
    exact readsValue_scalar _ _
  | bool value, _, rest, _ => by
    have hread : scalar? ((bool value).render.toList ++ rest) = some (bool value, rest) := by
      cases value <;> rfl
    rw [tokens_scalar hread]
    exact readsValue_scalar _ _
  | integer i, h, rest, hrest => by
    rw [render, tokens_scalar (scalar?_toString h.1 h.2 hrest)]
    exact readsValue_scalar _ _
  | text (some s), _, rest, _ => by
    rw [render, tokens_scalar (scalar?_quote s rest)]
    exact readsValue_scalar _ _
  | array [] true, _, rest, _ => by
    have hwritten : (array [] true).render.toList ++ rest = '[' :: ']' :: rest := rfl
    rw [hwritten, tokens_bracket rfl, tokens_bracket rfl]
    exact readsValue_emptyArray _
  | array (v :: items) true, h, rest, _ => by
    have hwritten : (array (v :: items) true).render.toList ++ rest =
        '[' :: ((renderItems (v :: items)).toList ++ ']' :: rest) := by
      rw [render]
      simp
    rw [hwritten, tokens_bracket rfl]
    exact (readsItems_render (v :: items) h.1 (List.cons_ne_nil _ _) rest).array
  | object [] true, _, rest, _ => by
    have hwritten : (object [] true).render.toList ++ rest = '\x7b' :: '\x7d' :: rest := rfl
    rw [hwritten, tokens_bracket rfl, tokens_bracket rfl]
    exact readsValue_emptyObject _
  | object (m :: members) true, h, rest, _ => by
    have hwritten : (object (m :: members) true).render.toList ++ rest =
        '\x7b' :: ((renderMembers (m :: members)).toList ++ '\x7d' :: rest) := by
      rw [render]
      simp
    rw [hwritten, tokens_bracket rfl]
    exact (readsMembers_render (m :: members) h.1 (List.cons_ne_nil _ _) rest).object

/-- The items of an array are read from what is written of them. -/
theorem readsItems_render : ∀ (items : List Json), AllPlain items → items ≠ [] →
    ∀ (rest : List Char), ReadsItems (tokens ((renderItems items).toList ++ ']' :: rest)) items
      (tokens rest)
  | [], _, hne, _ => (hne rfl).elim
  | [v], h, _, rest => by
    have hv := reads_render v h.1 (follows_cons (Or.inr (Or.inl rfl)) rest)
    rw [tokens_bracket (show bracket? ']' = some .closeArray from rfl)] at hv
    exact hv.lastItem
  | v :: w :: items, h, _, rest => by
    have hwritten : (renderItems (v :: w :: items)).toList ++ ']' :: rest =
        v.render.toList ++ ',' :: ((renderItems (w :: items)).toList ++ ']' :: rest) := by
      rw [renderItems]
      · simp
      · simp
    have hv := reads_render v h.1
      (follows_cons (Or.inl rfl) ((renderItems (w :: items)).toList ++ ']' :: rest))
    rw [tokens_bracket (show bracket? ',' = some .comma from rfl)] at hv
    rw [hwritten]
    exact hv.nextItem (readsItems_render (w :: items) h.2 (List.cons_ne_nil _ _) rest)

/-- The members of an object are read from what is written of them. -/
theorem readsMembers_render : ∀ (members : List (Option String × Json)), MembersPlain members →
    members ≠ [] → ∀ (rest : List Char),
    ReadsMembers (tokens ((renderMembers members).toList ++ '\x7d' :: rest)) members (tokens rest)
  | [], _, hne, _ => (hne rfl).elim
  | [(some key, v)], h, _, rest => by
    have hv := reads_render v h.2.1 (follows_cons (Or.inr (Or.inr rfl)) rest)
    rw [tokens_bracket (show bracket? '\x7d' = some .closeObject from rfl)] at hv
    have hwritten : (renderMembers [(some key, v)]).toList ++ '\x7d' :: rest =
        (quote key).toList ++ ':' :: (v.render.toList ++ '\x7d' :: rest) := by
      rw [renderMembers, renderKey]
      simp
    rw [hwritten, tokens_scalar (scalar?_quote key _),
      tokens_bracket (show bracket? ':' = some .colon from rfl)]
    exact hv.lastMember
  | (some key, v) :: m :: members, h, _, rest => by
    have hv := reads_render v h.2.1
      (follows_cons (Or.inl rfl) ((renderMembers (m :: members)).toList ++ '\x7d' :: rest))
    rw [tokens_bracket (show bracket? ',' = some .comma from rfl)] at hv
    have hwritten : (renderMembers ((some key, v) :: m :: members)).toList ++ '\x7d' :: rest =
        (quote key).toList ++ ':' :: (v.render.toList ++
          ',' :: ((renderMembers (m :: members)).toList ++ '\x7d' :: rest)) := by
      rw [renderMembers, renderKey]
      · simp
      · simp
    rw [hwritten, tokens_scalar (scalar?_quote key _),
      tokens_bracket (show bracket? ':' = some .colon from rfl)]
    exact hv.nextMember (readsMembers_render (m :: members) h.2.2 (List.cons_ne_nil _ _) rest)

end

/-- A plain value is all that its text says. -/
theorem ofText_render {v : Json} (h : v.IsPlain) : ofText v.render = (v, true) := by
  have hread := reads_render v h follows_nil
  rw [List.append_nil, tokens_nil] at hread
  obtain ⟨_, hread⟩ := hread
  unfold ofText ofChars
  rw [hread]
  rfl

/-! ## Nesting -/

mutual

/-- How many containers of a value are inside each other. -/
def nesting : Json → Nat
  | null | bool _ | integer _ | real .. | text _ | torn => 0
  | array items _ => allNesting items + 1
  | object members _ => membersNesting members + 1

/-- The deepest nesting of a list of values. -/
def allNesting : List Json → Nat
  | [] => 0
  | v :: rest => max v.nesting (allNesting rest)

/-- The deepest nesting of a list of members. -/
def membersNesting : List (Option String × Json) → Nat
  | [] => 0
  | (_, v) :: rest => max v.nesting (membersNesting rest)

end

mutual

/-- A plain value can be read whole where its containers nest as deep as they do. -/
theorem isWhole_of_nesting : ∀ (v : Json), v.IsPlain → ∀ {depth : Nat}, v.nesting ≤ depth →
    v.isWhole depth = true
  | null, _, _, _ | bool _, _, _, _ | integer _, _, _, _ => by rw [isWhole]
  | text content, h, _, _ => h
  | array items closed, h, depth, hdepth => by
    rw [nesting] at hdepth
    have hitems : allWhole (depth - 1) items = true := allWhole_of_nesting items h.1 (by omega)
    rw [isWhole, hitems, h.2]
    simp only [Bool.and_true, decide_eq_true_eq]
    omega
  | object members closed, h, depth, hdepth => by
    rw [nesting] at hdepth
    have hmembers : membersWhole (depth - 1) members = true :=
      membersWhole_of_nesting members h.1 (by omega)
    rw [isWhole, hmembers, h.2]
    simp only [Bool.and_true, decide_eq_true_eq]
    omega

theorem allWhole_of_nesting : ∀ (items : List Json), AllPlain items → ∀ {depth : Nat},
    allNesting items ≤ depth → allWhole depth items = true
  | [], _, _, _ => by rw [allWhole]
  | v :: rest, h, depth, hdepth => by
    rw [allNesting] at hdepth
    rw [allWhole, isWhole_of_nesting v h.1 (by omega), allWhole_of_nesting rest h.2 (by omega)]
    rfl

theorem membersWhole_of_nesting : ∀ (members : List (Option String × Json)),
    MembersPlain members → ∀ {depth : Nat}, membersNesting members ≤ depth →
    membersWhole depth members = true
  | [], _, _, _ => by rw [membersWhole]
  | (key, v) :: rest, h, depth, hdepth => by
    rw [membersNesting] at hdepth
    rw [membersWhole, h.1, isWhole_of_nesting v h.2.1 (by omega),
      membersWhole_of_nesting rest h.2.2 (by omega)]
    rfl

end

end KernelReplay.Json
