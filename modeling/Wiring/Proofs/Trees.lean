import Wiring.Proofs.Lexing
import Wiring.Proofs.StringMap

/-!
# Reading a written value back

The text of an exact value is read as the tree of that value, with nothing after it
(`Document.ofText_written`). From that tree the value is read as it was, unless it nests deeper than a reader
may go (`Json.read_tree`), and a value in canonical form is its own canonical form.
-/

namespace Wiring

namespace Json

/-! ## The tree of a value -/

mutual

/-- The tree of an exact value. Doubles stand as null, as among the tokens. -/
def tree : Json → Tree
  | .null => .scalar .null
  | .bool b => .scalar (.bool b)
  | .int n => .scalar (.numeral (.ofInt n))
  | .float _ => .scalar .null
  | .str s => .scalar (.ofString s)
  | .arr items => .array (treeItems items) none
  | .obj members => .object (treeMembers members) none

def treeItems : List Json → List Tree
  | [] => []
  | j :: js => tree j :: treeItems js

def treeMembers : List (String × Json) → List (Tree × Tree)
  | [] => []
  | (k, j) :: ms => (.scalar (.ofString k), tree j) :: treeMembers ms

end

mutual

/-- How many containers a value has within each other. -/
def depth : Json → Nat
  | .arr items => depthItems items + 1
  | .obj members => depthMembers members + 1
  | _ => 0

def depthItems : List Json → Nat
  | [] => 0
  | j :: js => max (depth j) (depthItems js)

def depthMembers : List (String × Json) → Nat
  | [] => 0
  | (_, j) :: ms => max (depth j) (depthMembers ms)

end

/-- A whole value is put into the innermost open container, or it is the document. -/
def settled (v : Tree) (fs : List Frame) (ts : List Token) : Document :=
  match settle v fs with
  | none => ⟨v, !ts.isEmpty⟩
  | some fs => .ofTokens .separator fs ts

/-- Where an array may end, a value may begin as anywhere. -/
theorem ofTokens_firstItem (j : Json) (items : List Tree) (fs : List Frame) (ts : List Token) :
    Document.ofTokens .firstItem (.array items :: fs) (j.lexemes ++ ts) =
      .ofTokens .value (.array items :: fs) (j.lexemes ++ ts) := by
  cases j with
  | arr js => cases js <;> rfl
  | obj ms =>
      cases ms with
      | nil => rfl
      | cons m ms => rfl
  | _ => rfl

mutual

theorem ofTokens_value : (j : Json) → (fs : List Frame) → (ts : List Token) →
    Document.ofTokens .value fs (j.lexemes ++ ts) = settled j.tree fs ts
  | .null, _, _ => rfl
  | .bool _, _, _ => rfl
  | .int _, _, _ => rfl
  | .float _, _, _ => rfl
  | .str _, _, _ => rfl
  | .arr [], _, _ => rfl
  | .arr (j :: js), fs, ts => by
      have hopen : Document.ofTokens .value fs ((Json.arr (j :: js)).lexemes ++ ts) =
          .ofTokens .firstItem (.array [] :: fs)
            (j.lexemes ++ (itemLexemes js ++ .mark .closeArray :: ts)) := by
        simp only [lexemes, List.cons_append, List.append_assoc, List.nil_append]
        rfl
      rw [hopen, ofTokens_firstItem, ofTokens_value j]
      exact ofTokens_items js [j.tree] fs ts
  | .obj [], _, _ => rfl
  | .obj ((k, j) :: ms), fs, ts => by
      have hopen : Document.ofTokens .value fs ((Json.obj ((k, j) :: ms)).lexemes ++ ts) =
          .ofTokens .value (.member [] (.scalar (.ofString k)) :: fs)
            (j.lexemes ++ (memberLexemes ms ++ .mark .closeObject :: ts)) := by
        simp only [lexemes, List.cons_append, List.append_assoc, List.nil_append]
        rfl
      rw [hopen, ofTokens_value j]
      exact ofTokens_members ms [(.scalar (.ofString k), j.tree)] fs ts

theorem ofTokens_items : (js : List Json) → (done : List Tree) → (fs : List Frame) →
    (ts : List Token) →
    Document.ofTokens .separator (.array done :: fs) (itemLexemes js ++ .mark .closeArray :: ts) =
      settled (.array (done.reverse ++ treeItems js) none) fs ts
  | [], done, fs, ts => by
      rw [treeItems, List.append_nil]
      rfl
  | j :: js, done, fs, ts => by
      have hcomma : Document.ofTokens .separator (.array done :: fs)
          (itemLexemes (j :: js) ++ .mark .closeArray :: ts) =
            .ofTokens .value (.array done :: fs)
              (j.lexemes ++ (itemLexemes js ++ .mark .closeArray :: ts)) := by
        simp only [itemLexemes, List.cons_append, List.append_assoc]
        rfl
      have hitems := ofTokens_items js (j.tree :: done) fs ts
      rw [List.reverse_cons, List.append_assoc, List.singleton_append] at hitems
      rw [hcomma, ofTokens_value j, treeItems, ← hitems]
      rfl

theorem ofTokens_members : (ms : List (String × Json)) → (done : List (Tree × Tree)) →
    (fs : List Frame) → (ts : List Token) →
    Document.ofTokens .separator (.object done :: fs)
        (memberLexemes ms ++ .mark .closeObject :: ts) =
      settled (.object (done.reverse ++ treeMembers ms) none) fs ts
  | [], done, fs, ts => by
      rw [treeMembers, List.append_nil]
      rfl
  | (k, j) :: ms, done, fs, ts => by
      have hcomma : Document.ofTokens .separator (.object done :: fs)
          (memberLexemes ((k, j) :: ms) ++ .mark .closeObject :: ts) =
            .ofTokens .value (.member done (.scalar (.ofString k)) :: fs)
              (j.lexemes ++ (memberLexemes ms ++ .mark .closeObject :: ts)) := by
        simp only [memberLexemes, List.cons_append, List.append_assoc]
        rfl
      have hmembers := ofTokens_members ms ((.scalar (.ofString k), j.tree) :: done) fs ts
      rw [List.reverse_cons, List.append_assoc, List.singleton_append] at hmembers
      rw [hcomma, ofTokens_value j, treeMembers, ← hmembers]
      rfl

end

theorem ofText_written {j : Json} (h : j.Exact) {text : String}
    (ht : text = j.compact ∨ text = j.pretty) : Document.ofText text = ⟨j.tree, false⟩ := by
  have hvalue := ofTokens_value j [] []
  rw [List.append_nil] at hvalue
  rw [Document.ofText, tokens_written h ht, hvalue]
  rfl

/-! ## Reading a tree -/

theorem joinParts_unit {n : Nat} (hn : n < 0xd800) (ps : List StringPart) :
    joinParts none (.unit n :: ps) = (joinParts none ps).map (Char.ofNat n :: ·) := by
  have hhigh : isHighSurrogate n = false := by
    simp only [isHighSurrogate, Bool.and_eq_false_iff, decide_eq_false_iff_not]
    omega
  have hlow : isLowSurrogate n = false := by
    simp only [isLowSurrogate, Bool.and_eq_false_iff, decide_eq_false_iff_not]
    omega
  cases ps with
  | nil => simp [joinParts, hhigh, hlow, closed, Except.map]
  | cons p ps =>
      cases p with
      | char c =>
          simp only [joinParts, hhigh, hlow]
          cases joinParts none ps <;> rfl
      | unit m => simp [joinParts, hhigh, hlow]

theorem joinParts_ofChar (cs : List Char) : joinParts none (cs.map .ofChar) = .ok cs := by
  induction cs with
  | nil => rfl
  | cons c cs ih =>
      rw [List.map_cons, StringPart.ofChar]
      split
      · rename_i hc
        rw [joinParts_unit (by omega), ih, Char.ofNat_toNat]
        rfl
      · rw [joinParts, ih]
        rfl

theorem readKey_ofString (s : String) : (Tree.scalar (.ofString s)).readKey = .ok s := by
  rw [Scalar.ofString, Tree.readKey, joinParts_ofChar, Except.map, String.ofList_toList]

theorem takeWord_eq (ds : List Char) (n taken : Nat)
    (h : Nat.ofDigitChars 10 ds n < word64Count) :
    takeWord n taken ds = (Nat.ofDigitChars 10 ds n, taken + ds.length, 0) := by
  induction ds generalizing n taken with
  | nil => rfl
  | cons d ds ih =>
      have hcons : Nat.ofDigitChars 10 (d :: ds) n = Nat.ofDigitChars 10 ds (10 * n + digitValue d) :=
        Nat.ofDigitChars_cons
      rw [hcons] at h ⊢
      have hd : 10 * n + digitValue d < word64Count := by
        have hle : 10 * n + digitValue d ≤ Nat.ofDigitChars 10 ds (10 * n + digitValue d) := by
          rw [Nat.ofDigitChars_eq_ofDigitChars_zero]
          exact Nat.le_add_right_of_le (Nat.le_mul_of_pos_left _ (Nat.pow_pos (by decide)))
        exact Nat.lt_of_le_of_lt hle h
      rw [takeWord, if_pos hd, ih _ _ h, List.length_cons, Nat.add_right_comm, Nat.add_assoc]

theorem value_ofInt {n : Int} (h : FitsWord n) : (Numeral.ofInt n).value = some (.int n) := by
  have hword : n.natAbs < word64Count := by
    unfold FitsWord signedWordBound at h
    unfold word64Count at h ⊢
    omega
  have hdigits : Nat.ofDigitChars 10 (Layout.digits n.natAbs) 0 = n.natAbs :=
    Nat.ofDigitChars_ten_toDigits
  have htake := takeWord_eq (Layout.digits n.natAbs) 0 0 (by rw [hdigits]; exact hword)
  rw [hdigits] at htake
  simp only [Numeral.value, Numeral.ofInt, htake, ne_eq, not_true_eq_false, if_false,
    decide_eq_true_eq]
  split
  · have hnat : (n.natAbs : Int) = n := by omega
    rw [hnat]
  · have hneg : 0 < n.natAbs ∧ n.natAbs ≤ signedWordBound := by
      unfold FitsWord at h
      omega
    have hnat : -(n.natAbs : Int) = n := by omega
    rw [if_pos hneg, hnat]

theorem enter_ok {l : Limits} {n : Nat} (h : n + 1 < l.depth) :
    l.enter = .ok { l with depth := l.depth - 1 } :=
  if_neg (by omega)

mutual

theorem read_tree : (j : Json) → j.Exact → (l : Limits) → j.depth < l.depth → j.tree.read l = .ok j
  | .null, _, _, _ => rfl
  | .bool _, _, _, _ => rfl
  | .int n, h, _, _ => by
      have hfits : FitsWord n := h
      rw [tree, Tree.read, Scalar.read, value_ofInt hfits]
  | .str s, _, _, _ => by
      rw [tree, Tree.read, Scalar.ofString, Scalar.read, joinParts_ofChar, Except.map,
        String.ofList_toList]
  | .arr items, h, l, hl => by
      rw [depth] at hl
      rw [tree, Tree.read, enter_ok hl]
      simp only [bind, Except.bind]
      rw [read_treeItems items h { l with depth := l.depth - 1 } (by simp only; omega)]
      rfl
  | .obj members, h, l, hl => by
      rw [depth] at hl
      rw [tree, Tree.read, enter_ok hl]
      simp only [bind, Except.bind]
      rw [read_treeMembers members h { l with depth := l.depth - 1 } (by simp only; omega)]
      rfl

theorem read_treeItems : (js : List Json) → ExactItems js → (l : Limits) → depthItems js < l.depth →
    Tree.readItems l (treeItems js) = .ok js
  | [], _, _, _ => rfl
  | j :: js, h, l, hl => by
      rw [depthItems] at hl
      rw [treeItems, Tree.readItems, read_tree j h.1 l (by omega),
        read_treeItems js h.2 l (by omega)]
      rfl

theorem read_treeMembers : (ms : List (String × Json)) → ExactMembers ms → (l : Limits) →
    depthMembers ms < l.depth → Tree.readMembers l (treeMembers ms) = .ok ms
  | [], _, _, _ => rfl
  | (k, j) :: ms, h, l, hl => by
      rw [depthMembers] at hl
      rw [treeMembers, Tree.readMembers, readKey_ofString, read_tree j h.1 l (by omega),
        read_treeMembers ms h.2 l (by omega)]
      rfl

end

/-! ## Canonical values -/

mutual

/-- A value in canonical form is its own. -/
theorem canonical_eq : (j : Json) → j.Canonical → j.canonical = j
  | .null, _ => rfl
  | .bool _, _ => rfl
  | .int n, h => by
      have hfits : FitsWord n := h
      rw [canonical, if_pos hfits]
  | .float _, _ => rfl
  | .str _, _ => rfl
  | .arr items, h => by rw [canonical, canonicalItems_eq items h]
  | .obj members, h => by
      rw [canonical, canonicalMembers_eq members h.2]
      exact congrArg (fun m => Json.obj m.entries) (StringMap.ofList_entries ⟨members, h.1⟩)

theorem canonicalItems_eq : (js : List Json) → CanonicalItems js → canonicalItems js = js
  | [], _ => rfl
  | j :: js, h => by rw [canonicalItems, canonical_eq j h.1, canonicalItems_eq js h.2]

theorem canonicalMembers_eq :
    (ms : List (String × Json)) → CanonicalMembers ms → canonicalMembers ms = ms
  | [], _ => rfl
  | (k, j) :: ms, h => by rw [canonicalMembers, canonical_eq j h.1, canonicalMembers_eq ms h.2]

end

theorem of_json (v : CanonicalJson) : CanonicalJson.of v.json = v := by
  obtain ⟨j, h⟩ := v
  simp only [CanonicalJson.of, canonical_eq j h]

end Json

end Wiring
