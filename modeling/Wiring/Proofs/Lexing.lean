import Mathlib.Tactic.SplitIfs
import Wiring.Json.Reading

/-!
# Tokens of a written value

A value is exact if it has no doubles and its integers fit a word. Written compact or pretty, an exact value
is cut into the same tokens (`Json.tokens_written`): its marks, and its scalars as they are written.
-/

namespace Wiring.Json

/-! ## Scalars as they are written -/

/-- An integer as it is written. -/
def Numeral.ofInt (n : Int) : Numeral := ⟨n < 0, Layout.digits n.natAbs, none, none⟩

/-- A character as it is read inside quotes: a control without an escape of its own is a unit. -/
def StringPart.ofChar (c : Char) : StringPart :=
  if c.toNat < 0x20 ∧ c ∉ ['\x08', '\x0c', '\n', '\r', '\t'] then .unit c.toNat else .char c

def Scalar.ofString (s : String) : Scalar := .string (s.toList.map .ofChar) none

mutual

/-- No doubles, and integers within a word, at every level. -/
def Exact : Json → Prop
  | .int n => FitsWord n
  | .float _ => False
  | .arr items => ExactItems items
  | .obj members => ExactMembers members
  | _ => True

def ExactItems : List Json → Prop
  | [] => True
  | j :: js => Exact j ∧ ExactItems js

def ExactMembers : List (String × Json) → Prop
  | [] => True
  | (_, j) :: ms => Exact j ∧ ExactMembers ms

end

mutual

/-- The tokens of an exact value. Doubles, whose digits are not followed here, stand as null. -/
def lexemes : Json → List Token
  | .null => [.scalar .null]
  | .bool b => [.scalar (.bool b)]
  | .int n => [.scalar (.numeral (.ofInt n))]
  | .float _ => [.scalar .null]
  | .str s => [.scalar (.ofString s)]
  | .arr [] => [.mark .openArray, .mark .closeArray]
  | .arr (j :: js) => .mark .openArray :: (lexemes j ++ (itemLexemes js ++ [.mark .closeArray]))
  | .obj [] => [.mark .openObject, .mark .closeObject]
  | .obj ((k, j) :: ms) =>
      .mark .openObject :: .scalar (.ofString k) :: .mark .colon ::
        (lexemes j ++ (memberLexemes ms ++ [.mark .closeObject]))

/-- Further items, each after a comma. -/
def itemLexemes : List Json → List Token
  | [] => []
  | j :: js => .mark .comma :: (lexemes j ++ itemLexemes js)

/-- Further members, each after a comma. -/
def memberLexemes : List (String × Json) → List Token
  | [] => []
  | (k, j) :: ms =>
      .mark .comma :: .scalar (.ofString k) :: .mark .colon :: (lexemes j ++ memberLexemes ms)

end

/-! ## One token -/

section Step

variable {c : Char} {m : Mark} {s : Scalar} {rest rest' : List Char}

theorem isBlank_eq_false_of_markOf (h : markOf c = some m) : isBlank c = false := by
  unfold markOf at h
  split at h <;> first | rfl | cases h

theorem tokens_blank (h : isBlank c = true) : tokens (c :: rest) = tokens rest := by
  rw [tokens, if_pos h]

theorem tokens_mark (h : markOf c = some m) : tokens (c :: rest) = .mark m :: tokens rest := by
  rw [tokens, isBlank_eq_false_of_markOf h, if_neg Bool.false_ne_true, h]

theorem tokens_scalar (hb : isBlank c = false) (hm : markOf c = none)
    (hs : scanScalar c rest = (s, rest')) (hw : s.whole = true) :
    tokens (c :: rest) = .scalar s :: tokens rest' := by
  rw [tokens, hb, if_neg Bool.false_ne_true, hm]
  dsimp only
  rw [hs, if_pos hw]

end Step

/-! ## Strings -/

theorem hexUnit_hexDigit : ∀ n < 0x20, hexUnit '0' '0' (hexDigit (n / 16)) (hexDigit (n % 16)) = some n := by
  decide

theorem scanString_escapeChar (done : List StringPart) (c : Char) (rest : List Char) :
    scanString done (escapeChar c ++ rest) = scanString (.ofChar c :: done) rest := by
  unfold escapeChar
  split_ifs with hq hs hb hf hn hr ht hc
  · subst hq
    rfl
  · subst hs
    rfl
  · subst hb
    rfl
  · subst hf
    rfl
  · subst hn
    rfl
  · subst hr
    rfl
  · subst ht
    rfl
  · have hunit : StringPart.ofChar c = .unit c.toNat :=
      if_pos ⟨hc, by simp [hb, hf, hn, hr, ht]⟩
    simp only [List.cons_append, List.nil_append, scanString, hexUnit_hexDigit _ hc, hunit]
  · have hchar : StringPart.ofChar c = .char c := if_neg fun h => hc h.1
    rw [hchar, List.singleton_append, scanString.eq_def]
    split
    all_goals rename_i heq
    all_goals cases heq
    all_goals first | exact absurd rfl hq | exact absurd rfl hs | exact if_neg hc

theorem scanString_quoted (cs rest : List Char) (done : List StringPart) :
    scanString done (cs.flatMap escapeChar ++ '"' :: rest) =
      (.string (done.reverse ++ cs.map .ofChar) none, rest) := by
  induction cs generalizing done with
  | nil => simp [scanString]
  | cons c cs ih =>
      rw [List.flatMap_cons, List.append_assoc, scanString_escapeChar, ih]
      simp

/-! ## Integers -/

/-- What cannot go on with a number that stands before it. -/
def Delimited (rest : List Char) : Prop :=
  ∀ c ∈ rest.head?, c.isDigit = false ∧ c ≠ '.' ∧ c ≠ 'e' ∧ c ≠ 'E'

theorem delimited_nil : Delimited [] := nofun

theorem delimited_cons {c : Char} {m : Mark} (h : markOf c = some m) (rest : List Char) :
    Delimited (c :: rest) := by
  intro d hd
  cases hd
  unfold markOf at h
  split at h <;> first | decide | cases h

theorem delimited_newline (level : Nat) (rest : List Char) : Delimited (newline level ++ rest) := by
  intro c hc
  cases hc
  decide

theorem Delimited.append {cs rest : List Char} (h : Delimited cs) (hr : Delimited rest) :
    Delimited (cs ++ rest) := by
  cases cs with
  | nil => exact hr
  | cons c cs => exact h

theorem digits_head {n : Nat} (h : (Layout.digits n).head? = some '0') : n = 0 := by
  unfold Layout.digits at h
  induction n using Nat.strongRecOn with
  | ind n ih =>
      rw [Nat.toDigits_eq_if (by decide)] at h
      split at h
      · simpa [Nat.digitChar_eq_zero] using h
      · rename_i hn
        rw [List.head?_append, List.head?_eq_some_head Nat.toDigits_ne_nil, Option.some_or,
          ← List.head?_eq_some_head] at h
        have hz := ih (n / 10) (by omega) h
        omega

theorem scanNumeral_digits (negative : Bool) (n : Nat) {rest : List Char} (h : Delimited rest) :
    scanNumeral negative (Layout.digits n ++ rest) =
      (.numeral ⟨negative, Layout.digits n, none, none⟩, rest) := by
  have hdigits : ∀ c ∈ Layout.digits n, c.isDigit = true := fun c hc =>
    Nat.isDigit_of_mem_toDigits (by decide) (by decide) hc
  have hrest : rest.takeWhile Char.isDigit = [] ∧ rest.dropWhile Char.isDigit = rest := by
    cases rest with
    | nil => exact ⟨rfl, rfl⟩
    | cons c rest => simp [(h c rfl).1]
  have htake : (Layout.digits n ++ rest).takeWhile Char.isDigit = Layout.digits n := by
    rw [List.takeWhile_append_of_pos hdigits, hrest.1, List.append_nil]
  have hdrop : (Layout.digits n ++ rest).dropWhile Char.isDigit = rest := by
    rw [List.dropWhile_append_of_pos hdigits, hrest.2]
  have hne : (Layout.digits n).isEmpty = false := by
    simp [Layout.digits, Nat.toDigits_ne_nil]
  have hzero : ¬((Layout.digits n).head? = some '0' ∧ (Layout.digits n).length ≠ 1) := by
    rintro ⟨hhead, hlength⟩
    rw [digits_head hhead] at hlength
    exact hlength rfl
  simp only [scanNumeral, htake, hdrop, hne, Bool.false_eq_true, if_false, hzero]
  cases rest with
  | nil => rfl
  | cons c rest =>
      obtain ⟨_, hdot, he, hE⟩ := h c rfl
      rw [scanFraction.eq_def]
      split
      · rename_i heq
        cases heq
        exact absurd rfl hdot
      · rw [scanPower, if_neg (not_or.2 ⟨he, hE⟩)]

/-! ## Spelling -/

/-- A text is cut into some tokens, whatever follows it that does not go on with a number. -/
def Spells (cs : List Char) (ts : List Token) : Prop :=
  ∀ rest, Delimited rest → tokens (cs ++ rest) = ts ++ tokens rest

namespace Spells

variable {c : Char} {cs cs' : List Char} {ts ts' : List Token}

theorem nil : Spells [] [] := fun _ _ => rfl

theorem append (h : Spells cs ts) (hd : Delimited cs') (h' : Spells cs' ts') :
    Spells (cs ++ cs') (ts ++ ts') := by
  intro rest hr
  rw [List.append_assoc, h _ (hd.append hr), h' _ hr, List.append_assoc]

theorem blank (hb : isBlank c = true) (h : Spells cs ts) : Spells (c :: cs) ts := by
  intro rest hr
  rw [List.cons_append, tokens_blank hb, h _ hr]

theorem mark {m : Mark} (hm : markOf c = some m) (h : Spells cs ts) :
    Spells (c :: cs) (.mark m :: ts) := by
  intro rest hr
  rw [List.cons_append, tokens_mark hm, h _ hr, List.cons_append]

theorem scalar {s : Scalar} (hb : isBlank c = false) (hm : markOf c = none) (hw : s.whole = true)
    (hs : ∀ rest, Delimited rest → scanScalar c (cs ++ rest) = (s, rest)) :
    Spells (c :: cs) [.scalar s] := by
  intro rest hr
  rw [List.cons_append, tokens_scalar hb hm (hs rest hr) hw, List.singleton_append]

theorem blanks (n : Nat) (h : Spells cs ts) : Spells (List.replicate n ' ' ++ cs) ts := by
  induction n with
  | zero => exact h
  | succ n ih => exact .blank rfl ih

theorem newline (level : Nat) (h : Spells cs ts) : Spells (newline level ++ cs) ts :=
  .blank rfl (h.blanks _)

end Spells

theorem of_isDigit {c : Char} (h : c.isDigit = true) :
    isBlank c = false ∧ markOf c = none ∧ ∀ rest, scanScalar c rest = scanNumeral false (c :: rest) := by
  have hne {d : Char} (hd : d.isDigit = false) : c ≠ d := by
    rintro rfl
    rw [h] at hd
    cases hd
  refine ⟨?_, ?_, fun rest => ?_⟩
  · simp [isBlank, hne]
  · unfold markOf
    split <;> first | exact absurd rfl (hne rfl) | rfl
  · rw [scanScalar, if_neg (hne rfl), if_neg (hne rfl), if_pos h]

theorem spells_quote (k : String) : Spells (quote k) [.scalar (.ofString k)] := by
  have hquote : quote k = '"' :: (k.toList.flatMap escapeChar ++ ['"']) := rfl
  rw [hquote]
  refine .scalar rfl rfl rfl fun rest _ => ?_
  rw [List.append_assoc]
  exact scanString_quoted k.toList rest []

theorem spells_int (n : Int) : Spells (intChars n) [.scalar (.numeral (.ofInt n))] := by
  unfold intChars Numeral.ofInt
  split
  · rename_i hn
    refine .scalar rfl rfl rfl fun rest hr => ?_
    rw [decide_eq_true hn]
    exact scanNumeral_digits true n.natAbs hr
  · rename_i hn
    obtain ⟨c, ds, hds⟩ : ∃ c ds, Layout.digits n.natAbs = c :: ds :=
      List.exists_cons_of_ne_nil Nat.toDigits_ne_nil
    have hmem : c ∈ Layout.digits n.natAbs := hds ▸ List.mem_cons_self
    obtain ⟨hblank, hmark, hscalar⟩ :=
      of_isDigit (Nat.isDigit_of_mem_toDigits (by decide) (by decide) hmem)
    rw [hds]
    refine .scalar hblank hmark rfl fun rest hr => ?_
    rw [hscalar, ← List.cons_append, ← hds, decide_eq_false hn]
    exact scanNumeral_digits false n.natAbs hr

/-! ## Written forms -/

theorem spells_null : Spells "null".toList [.scalar .null] :=
  .scalar (c := 'n') rfl rfl rfl fun _ _ => rfl

theorem spells_bool (b : Bool) :
    Spells (if b then "true".toList else "false".toList) [.scalar (.bool b)] := by
  cases b with
  | true => exact .scalar (c := 't') rfl rfl rfl fun _ _ => rfl
  | false => exact .scalar (c := 'f') rfl rfl rfl fun _ _ => rfl

theorem delimited_compactItems (js : List Json) : Delimited (compactItems js) := by
  cases js with
  | nil => exact delimited_nil
  | cons => exact delimited_cons rfl _

theorem delimited_compactMembers (ms : List (String × Json)) : Delimited (compactMembers ms) := by
  cases ms with
  | nil => exact delimited_nil
  | cons => exact delimited_cons rfl _

mutual

theorem spells_compact : (j : Json) → j.Exact → Spells j.compactChars j.lexemes
  | .null, _ => spells_null
  | .bool b, _ => spells_bool b
  | .int n, _ => spells_int n
  | .str s, _ => spells_quote s
  | .arr [], _ => .mark rfl (.mark rfl .nil)
  | .arr (j :: js), h => by
      have hclose := Spells.mark (c := ']') rfl .nil
      have hitems := (spells_compactItems js h.2).append (delimited_cons rfl []) hclose
      have hd := (delimited_compactItems js).append (delimited_cons (c := ']') rfl [])
      simp only [compactChars, lexemes, List.cons_append, List.append_assoc]
      exact .mark rfl ((spells_compact j h.1).append hd hitems)
  | .obj [], _ => .mark rfl (.mark rfl .nil)
  | .obj ((k, j) :: ms), h => by
      have hclose := Spells.mark (c := '\x7d') rfl .nil
      have hmembers := (spells_compactMembers ms h.2).append (delimited_cons rfl []) hclose
      have hd := (delimited_compactMembers ms).append (delimited_cons (c := '\x7d') rfl [])
      simp only [compactChars, lexemes, List.cons_append, List.append_assoc]
      exact .mark rfl ((spells_quote k).append (delimited_cons rfl _)
        (.mark rfl ((spells_compact j h.1).append hd hmembers)))

theorem spells_compactItems :
    (js : List Json) → ExactItems js → Spells (compactItems js) (itemLexemes js)
  | [], _ => .nil
  | j :: js, h => by
      simp only [compactItems, itemLexemes, List.cons_append]
      exact .mark rfl
        ((spells_compact j h.1).append (delimited_compactItems js) (spells_compactItems js h.2))

theorem spells_compactMembers :
    (ms : List (String × Json)) → ExactMembers ms → Spells (compactMembers ms) (memberLexemes ms)
  | [], _ => .nil
  | (k, j) :: ms, h => by
      have hmembers :=
        (spells_compact j h.1).append (delimited_compactMembers ms) (spells_compactMembers ms h.2)
      simp only [compactMembers, memberLexemes, List.cons_append, List.append_assoc]
      exact .mark rfl ((spells_quote k).append (delimited_cons rfl _) (.mark rfl hmembers))

end

theorem delimited_prettyItems (level : Nat) (js : List Json) : Delimited (prettyItems level js) := by
  cases js with
  | nil => exact delimited_nil
  | cons => exact delimited_cons rfl _

theorem delimited_prettyMembers (level : Nat) (ms : List (String × Json)) :
    Delimited (prettyMembers level ms) := by
  cases ms with
  | nil => exact delimited_nil
  | cons => exact delimited_cons rfl _

mutual

theorem spells_pretty (level : Nat) :
    (j : Json) → j.Exact → Spells (j.prettyChars level) j.lexemes
  | .null, _ => spells_null
  | .bool b, _ => spells_bool b
  | .int n, _ => spells_int n
  | .str s, _ => spells_quote s
  | .arr [], _ => .mark rfl (.mark rfl .nil)
  | .arr (j :: js), h => by
      have hclose := Spells.newline level (Spells.mark (c := ']') rfl .nil)
      have hitems := (spells_prettyItems (level + 1) js h.2).append (delimited_newline level _) hclose
      have hd := (delimited_prettyItems (level + 1) js).append (delimited_newline level [']'])
      simp only [prettyChars, lexemes, List.cons_append, List.append_assoc]
      exact .mark rfl (.newline _ ((spells_pretty (level + 1) j h.1).append hd hitems))
  | .obj [], _ => .mark rfl (.mark rfl .nil)
  | .obj ((k, j) :: ms), h => by
      have hclose := Spells.newline level (Spells.mark (c := '\x7d') rfl .nil)
      have hmembers :=
        (spells_prettyMembers (level + 1) ms h.2).append (delimited_newline level _) hclose
      have hd := (delimited_prettyMembers (level + 1) ms).append (delimited_newline level ['\x7d'])
      simp only [prettyChars, lexemes, List.cons_append, List.append_assoc, List.nil_append]
      exact .mark rfl (.newline _ ((spells_quote k).append (delimited_cons rfl _)
        (.mark rfl (.blank rfl ((spells_pretty (level + 1) j h.1).append hd hmembers)))))

theorem spells_prettyItems (level : Nat) :
    (js : List Json) → ExactItems js → Spells (prettyItems level js) (itemLexemes js)
  | [], _ => .nil
  | j :: js, h => by
      have hitems := (spells_pretty level j h.1).append (delimited_prettyItems level js)
        (spells_prettyItems level js h.2)
      simp only [prettyItems, itemLexemes, List.cons_append, List.append_assoc]
      exact .mark rfl (.newline _ hitems)

theorem spells_prettyMembers (level : Nat) :
    (ms : List (String × Json)) → ExactMembers ms → Spells (prettyMembers level ms) (memberLexemes ms)
  | [], _ => .nil
  | (k, j) :: ms, h => by
      have hmembers := (spells_pretty level j h.1).append (delimited_prettyMembers level ms)
        (spells_prettyMembers level ms h.2)
      simp only [prettyMembers, memberLexemes, List.cons_append, List.append_assoc, List.nil_append]
      exact .mark rfl (.newline _ ((spells_quote k).append (delimited_cons rfl _)
        (.mark rfl (.blank rfl hmembers))))

end

/-- Both written forms of a value are cut into its tokens. -/
theorem tokens_written {j : Json} (h : j.Exact) {text : String}
    (ht : text = j.compact ∨ text = j.pretty) : tokens text.toList = j.lexemes := by
  have hspells : Spells text.toList j.lexemes := by
    rcases ht with rfl | rfl
    · simpa only [compact, String.toList_ofList] using spells_compact j h
    · simpa only [pretty, String.toList_ofList] using spells_pretty 0 j h
  have hempty := hspells [] nofun
  have hnil : tokens [] = [] := by rw [tokens]
  rwa [List.append_nil, hnil, List.append_nil] at hempty

end Wiring.Json
