import Mathlib.Data.List.Basic
import Wiring.Report.Markdown

/-!
# Labels and marks

How text that is put together can be taken apart again: parts that each end in a mark (`flatMap_ended_inj`),
lines under labels of which none is the beginning of another (`labelled_inj`), and lists of inline code
(`noted_inj`). Kinds of plans and dispositions are told by their labels.
-/

namespace Wiring

/-! ## Parts and marks -/

section Parts

variable {α β : Type}

/-- What stands before the first of a mark, and what stands after it. -/
theorem append_cons_inj {a : α} {l l' r r' : List α} (hl : a ∉ l) (hl' : a ∉ l')
    (h : l ++ a :: r = l' ++ a :: r') : l = l' ∧ r = r' := by
  induction l generalizing l' with
  | nil =>
      cases l' with
      | nil => exact ⟨rfl, (List.cons.inj h).2⟩
      | cons y l' => exact absurd (List.cons.inj h).1 fun hy => hl' (hy ▸ List.mem_cons_self)
  | cons x l ih =>
      cases l' with
      | nil => exact absurd (List.cons.inj h).1 fun hx => hl (hx ▸ List.mem_cons_self)
      | cons y l' =>
          obtain ⟨rfl, htail⟩ := List.cons.inj h
          obtain ⟨rfl, hr⟩ := ih (List.not_mem_of_not_mem_cons hl) (List.not_mem_of_not_mem_cons hl') htail
          exact ⟨rfl, hr⟩

/-- Parts that all end in a mark, which none of them holds. -/
theorem flatMap_ended_inj {a : α} {ls ls' : List (List α)} (hls : ∀ l ∈ ls, a ∉ l)
    (hls' : ∀ l ∈ ls', a ∉ l) (h : ls.flatMap (· ++ [a]) = ls'.flatMap (· ++ [a])) : ls = ls' := by
  induction ls generalizing ls' with
  | nil =>
      cases ls' with
      | nil => rfl
      | cons l' ls' => simp at h
  | cons l ls ih =>
      cases ls' with
      | nil => simp at h
      | cons l' ls' =>
          rw [List.forall_mem_cons] at hls hls'
          simp only [List.flatMap_cons, List.append_assoc, List.singleton_append] at h
          obtain ⟨rfl, htail⟩ := append_cons_inj hls.1 hls'.1 h
          rw [ih hls.2 hls'.2 htail]

/-- What has a property, before what does not have it. -/
theorem append_inj_of_filter {p : α → Bool} {xs ys xs' ys' : List α} (hxs : ∀ x ∈ xs, p x = true)
    (hys : ∀ y ∈ ys, p y = false) (hxs' : ∀ x ∈ xs', p x = true) (hys' : ∀ y ∈ ys', p y = false)
    (h : xs ++ ys = xs' ++ ys') : xs = xs' ∧ ys = ys' := by
  have hread {xs ys : List α} (hxs : ∀ x ∈ xs, p x = true) (hys : ∀ y ∈ ys, p y = false) :
      (xs ++ ys).filter p = xs := by
    rw [List.filter_append, List.filter_eq_self.2 hxs,
      List.filter_eq_nil_iff.2 fun y hy => by simp [hys y hy], List.append_nil]
  have hfirst : xs = xs' := by rw [← hread hxs hys, h, hread hxs' hys']
  exact ⟨hfirst, List.append_cancel_left (hfirst ▸ h)⟩

theorem map_inj_on {f : α → β} {P : α → Prop} (hf : ∀ x y, P x → P y → f x = f y → x = y)
    {xs ys : List α} (hxs : ∀ x ∈ xs, P x) (hys : ∀ y ∈ ys, P y) (h : xs.map f = ys.map f) : xs = ys := by
  induction xs generalizing ys with
  | nil => exact (List.map_eq_nil_iff.1 h.symm).symm
  | cons x xs ih =>
      obtain ⟨y, ys, rfl, hy, h⟩ := List.map_eq_cons_iff.1 h.symm
      rw [List.forall_mem_cons] at hxs hys
      rw [hf x y hxs.1 hys.1 hy.symm, ih hxs.2 hys.2 h.symm]

theorem toList_option_inj {o o' : Option α} (h : o.toList = o'.toList) : o = o' := by
  simpa using congrArg List.head? h

end Parts

namespace Markdown

/-! ## Labels -/

/-- Neither of two labels is the beginning of the other. -/
def Apart (l k : String) : Prop := ¬l.toList <+: k.toList ∧ ¬k.toList <+: l.toList

instance (l k : String) : Decidable (Apart l k) := inferInstanceAs (Decidable (_ ∧ _))

theorem Apart.append_ne {l k : String} (h : Apart l k) (x y : String) : l ++ x ≠ k ++ y := by
  intro heq
  have hl : l.toList <+: (l ++ x).toList := by simp
  have hk : k.toList <+: (l ++ x).toList := by simp [heq]
  exact (List.prefix_or_prefix_of_prefix hl hk).elim h.1 h.2

/-- Words that are apart are told by the texts that begin with them. -/
theorem index_eq_of_apart {words : List String} (hwords : words.Pairwise Apart) {i j : Nat}
    {w w' x y : String} (hi : words[i]? = some w) (hj : words[j]? = some w') (h : w ++ x = w' ++ y) :
    i = j := by
  obtain ⟨hilt, rfl⟩ := List.getElem?_eq_some_iff.1 hi
  obtain ⟨hjlt, rfl⟩ := List.getElem?_eq_some_iff.1 hj
  rw [List.pairwise_iff_getElem] at hwords
  rcases Nat.lt_trichotomy i j with hij | hij | hij
  · exact absurd h ((hwords i j hilt hjlt hij).append_ne x y)
  · exact hij
  · exact absurd h.symm ((hwords j i hjlt hilt hij).append_ne y x)

/-- Lines that begin with labels, several with one label or none. -/
def labelled (parts : List (String × List String)) : List String :=
  parts.flatMap fun part => part.2.map (part.1 ++ ·)

theorem exists_of_mem_labelled {parts : List (String × List String)} {line : String}
    (h : line ∈ labelled parts) : ∃ part ∈ parts, ∃ item ∈ part.2, part.1 ++ item = line := by
  obtain ⟨part, hpart, h⟩ := List.mem_flatMap.1 h
  exact ⟨part, hpart, List.mem_map.1 h⟩

/-- Under labels that are apart, lines tell what stands under each. -/
theorem labelled_inj {parts parts' : List (String × List String)}
    (hlabels : parts.map (·.1) = parts'.map (·.1)) (hapart : (parts.map (·.1)).Pairwise Apart)
    (h : labelled parts = labelled parts') : parts = parts' := by
  induction parts generalizing parts' with
  | nil => exact (List.map_eq_nil_iff.1 hlabels.symm).symm
  | cons part parts ih =>
      obtain ⟨⟨label, items'⟩, parts', rfl, rfl, hrest⟩ := List.map_eq_cons_iff.1 hlabels.symm
      rw [List.map_cons, List.pairwise_cons] at hapart
      have hmine (items : List String) :
          ∀ line ∈ items.map (part.1 ++ ·), part.1.toList.isPrefixOf line.toList = true := by
        intro line hline
        obtain ⟨item, _, rfl⟩ := List.mem_map.1 hline
        simp
      have hothers {others : List (String × List String)} (ho : others.map (·.1) = parts.map (·.1)) :
          ∀ line ∈ labelled others, part.1.toList.isPrefixOf line.toList = false := by
        intro line hline
        obtain ⟨other, hother, item, _, rfl⟩ := exists_of_mem_labelled hline
        have hlabel : Apart part.1 other.1 := hapart.1 _ (ho ▸ List.mem_map_of_mem hother)
        rw [Bool.eq_false_iff, Ne, List.isPrefixOf_iff_prefix]
        rintro ⟨rest, hrest⟩
        refine hlabel.append_ne (.ofList rest) item (String.toList_inj.1 ?_)
        simp [hrest]
      obtain ⟨hitems, hparts⟩ :=
        append_inj_of_filter (hmine _) (hothers rfl) (hmine _) (hothers hrest) h
      have hitems : part.2 = items' :=
        (List.map_inj_right fun _ _ => (String.append_right_inj _).1).1 hitems
      rw [ih hrest.symm hapart.2 hparts, ← hitems]

/-! ## Kinds and dispositions -/

theorem eq_of_toString {i j : Nat} (h : toString i = toString j) : i = j := by
  have hread := congrArg (fun s : String => Nat.ofDigitChars 10 s.toList 0) h
  simpa only [Nat.toString_eq_repr, Nat.toList_repr, Nat.ofDigitChars_ten_toDigits] using hread

/-- What the labels of kinds begin with. -/
def kindWords : List String := ["bean", "proxy", "adapter #"]

theorem kindLabel_begins (k : PlanKind) :
    ∃ word rest, kindWords[k.ctorIdx]? = some word ∧ kindLabel k = word ++ rest := by
  cases k with
  | adapter i => exact ⟨_, toString i, rfl, rfl⟩
  | _ => exact ⟨_, "", rfl, String.append_empty.symm⟩

theorem kindLabel_inj {k l : PlanKind} (h : kindLabel k = kindLabel l) : k = l := by
  obtain ⟨word, rest, hk, hword⟩ := kindLabel_begins k
  obtain ⟨word', rest', hl, hword'⟩ := kindLabel_begins l
  have hindex : k.ctorIdx = l.ctorIdx :=
    index_eq_of_apart (by decide) hk hl (hword ▸ hword' ▸ h)
  cases k with
  | adapter i =>
      cases l with
      | adapter j => rw [eq_of_toString ((String.append_right_inj _).1 h)]
      | _ => cases hindex
  | _ => cases l <;> first | rfl | cases hindex

/-- What the labels of dispositions begin with, as far as they are told apart. -/
def dispositionWords : List String :=
  ["Unclaimed", "FieldValue", "FieldInjection", "Lifecycle \x7b post_construct: ", "MethodInjection",
    "Adapter \x7b index: ", "AdapterDeclined", "Intercepted", "Executable", "Property"]

theorem dispositionLabel_begins (d : Disposition) :
    ∃ word rest, dispositionWords[d.ctorIdx]? = some word ∧ dispositionLabel d = word ++ rest := by
  cases d with
  | lifecycle a b =>
      refine ⟨_, boolLabel a ++ (", pre_destroy: " ++ (boolLabel b ++ " \x7d")), rfl, ?_⟩
      simp only [← String.append_assoc]
      rfl
  | adapter i => exact ⟨_, toString i ++ " \x7d", rfl, String.append_assoc⟩
  | _ => exact ⟨_, "", rfl, String.append_empty.symm⟩

theorem dispositionLabel_inj {d e : Disposition} (h : dispositionLabel d = dispositionLabel e) : d = e := by
  obtain ⟨word, rest, hd, hword⟩ := dispositionLabel_begins d
  obtain ⟨word', rest', he, hword'⟩ := dispositionLabel_begins e
  have hindex : d.ctorIdx = e.ctorIdx :=
    index_eq_of_apart (by decide) hd he (hword ▸ hword' ▸ h)
  have hflags : ∀ a b a' b', dispositionLabel (.lifecycle a b) = dispositionLabel (.lifecycle a' b') →
      a = a' ∧ b = b' := by decide
  cases d with
  | lifecycle a b =>
      cases e with
      | lifecycle a' b' =>
          obtain ⟨rfl, rfl⟩ := hflags a b a' b' h
          rfl
      | _ => cases hindex
  | adapter i =>
      cases e with
      | adapter j =>
          rw [eq_of_toString ((String.append_right_inj _).1 ((String.append_left_inj _).1 h))]
      | _ => cases hindex
  | _ => cases e <;> first | rfl | cases hindex

/-! ## Code and lists of code -/

/-- The character around inline code. -/
def tick : Char := '\x60'

/-- Text that fits into one line. -/
def Unbroken (s : String) : Prop := '\n' ∉ s.toList

/-- Text that fits into inline code. -/
def Inline (s : String) : Prop := Unbroken s ∧ tick ∉ s.toList

instance (s : String) : Decidable (Unbroken s) := inferInstanceAs (Decidable (¬_))

instance (s : String) : Decidable (Inline s) := inferInstanceAs (Decidable (_ ∧ _))

/-- A method by its signature, with whether reflection calls it. -/
def mention (m : String × Bool) : String := code m.1 ++ reflectiveMark m.2

/-- What follows the first item of a list. -/
def further (items : List String) : String := .join (items.map (", " ++ ·))

/-- What stands under the label of a list, which is left out without items. -/
def noted (items : List String) : List String := if items.isEmpty then [] else [listed items]

theorem toList_code (s : String) : (code s).toList = tick :: (s.toList ++ [tick]) := by
  simp [code, tick]

theorem code_eq_mention (s : String) : code s = mention (s, false) := String.append_empty.symm

theorem further_cons (item : String) (items : List String) :
    further (item :: items) = ", " ++ (item ++ further items) := by
  rw [further, List.map_cons, String.join_cons, String.append_assoc, further]

theorem listed_cons (item : String) (items : List String) :
    listed (item :: items) = item ++ further items := by
  induction items generalizing item with
  | nil => simp [listed, further]
  | cons next items ih =>
      rw [listed, String.intercalate_cons_cons, ← listed, ih, further_cons, String.append_assoc]

/-! ### Texts without line breaks -/

@[simp] theorem unbroken_append {s t : String} : Unbroken (s ++ t) ↔ Unbroken s ∧ Unbroken t := by
  simp [Unbroken]

@[simp] theorem unbroken_code {s : String} : Unbroken (code s) ↔ Unbroken s := by
  simp [Unbroken, toList_code, tick]

theorem unbroken_further {items : List String} (h : ∀ item ∈ items, Unbroken item) :
    Unbroken (further items) := by
  induction items with
  | nil => decide
  | cons item items ih =>
      rw [List.forall_mem_cons] at h
      rw [further_cons, unbroken_append, unbroken_append]
      exact ⟨by decide, h.1, ih h.2⟩

theorem unbroken_listed {items : List String} (h : ∀ item ∈ items, Unbroken item) :
    Unbroken (listed items) := by
  cases items with
  | nil => decide
  | cons item items =>
      rw [List.forall_mem_cons] at h
      rw [listed_cons, unbroken_append]
      exact ⟨h.1, unbroken_further h.2⟩

theorem unbroken_noted {items : List String} (h : ∀ item ∈ items, Unbroken item) :
    ∀ line ∈ noted items, Unbroken line := by
  unfold noted
  split
  · exact List.forall_mem_nil _
  · exact List.forall_mem_singleton.2 (unbroken_listed h)

theorem unbroken_mention {m : String × Bool} (h : Inline m.1) : Unbroken (mention m) := by
  rw [mention, unbroken_append, unbroken_code]
  exact ⟨h.1, by cases m.2 <;> decide⟩

theorem unbroken_toString (i : Nat) : Unbroken (toString i) := by
  intro hmem
  rw [Nat.toString_eq_repr, Nat.toList_repr] at hmem
  exact absurd (Nat.isDigit_of_mem_toDigits (by decide) (by decide) hmem) (by decide)

theorem unbroken_kindLabel (k : PlanKind) : Unbroken (kindLabel k) := by
  cases k with
  | adapter i => exact unbroken_append.2 ⟨by decide, unbroken_toString i⟩
  | _ => decide

theorem unbroken_dispositionLabel (d : Disposition) : Unbroken (dispositionLabel d) := by
  cases d with
  | lifecycle a b => cases a <;> cases b <;> decide
  | adapter i =>
      exact unbroken_append.2 ⟨unbroken_append.2 ⟨by decide, unbroken_toString i⟩, by decide⟩
  | _ => decide

/-! ### What code tells -/

theorem code_append_inj {s t x y : String} (hs : Inline s) (ht : Inline t)
    (h : code s ++ x = code t ++ y) : s = t ∧ x = y := by
  have hchars := congrArg String.toList h
  simp only [String.toList_append, toList_code, List.cons_append, List.append_assoc, List.cons.injEq,
    true_and, List.nil_append] at hchars
  obtain ⟨hst, hxy⟩ := append_cons_inj hs.2 ht.2 hchars
  exact ⟨String.toList_inj.1 hst, String.toList_inj.1 hxy⟩

theorem code_inj {s t : String} (h : code s = code t) : s = t := by
  rwa [code, code, String.append_left_inj, String.append_right_inj] at h

/-- A remark begins with a blank, and nothing else that can follow a method does. -/
theorem reflectiveMark_append_inj {a b : Bool} {xs ys : List String}
    (h : reflectiveMark a ++ further xs = reflectiveMark b ++ further ys) :
    a = b ∧ further xs = further ys := by
  have hblank (items rest : List String) : further items ≠ " (reflective)" ++ further rest := by
    intro heq
    have hhead := congrArg (·.toList.head?) heq
    cases items <;> simp [further] at hhead
  cases a <;> cases b
  · exact ⟨rfl, (String.append_right_inj _).1 h⟩
  · exact absurd (String.empty_append.symm.trans h) (hblank xs ys)
  · exact absurd (h.trans String.empty_append).symm (hblank ys xs)
  · exact ⟨rfl, (String.append_right_inj _).1 h⟩

theorem further_inj {xs ys : List (String × Bool)} (hxs : ∀ x ∈ xs, Inline x.1)
    (hys : ∀ y ∈ ys, Inline y.1) (h : further (xs.map mention) = further (ys.map mention)) : xs = ys := by
  induction xs generalizing ys with
  | nil =>
      cases ys with
      | nil => rfl
      | cons y ys => simp [further] at h
  | cons x xs ih =>
      cases ys with
      | nil => simp [further] at h
      | cons y ys =>
          rw [List.forall_mem_cons] at hxs hys
          rw [List.map_cons, List.map_cons, further_cons, further_cons, String.append_right_inj, mention,
            mention, String.append_assoc, String.append_assoc] at h
          obtain ⟨hname, hrest⟩ := code_append_inj hxs.1 hys.1 h
          obtain ⟨hmark, hrest⟩ := reflectiveMark_append_inj hrest
          rw [ih hxs.2 hys.2 hrest, Prod.ext hname hmark]

theorem noted_inj {xs ys : List (String × Bool)} (hxs : ∀ x ∈ xs, Inline x.1)
    (hys : ∀ y ∈ ys, Inline y.1) (h : noted (xs.map mention) = noted (ys.map mention)) : xs = ys := by
  cases xs with
  | nil =>
      cases ys with
      | nil => rfl
      | cons y ys => simp [noted] at h
  | cons x xs =>
      cases ys with
      | nil => simp [noted] at h
      | cons y ys =>
          have hlisted : listed ((x :: xs).map mention) = listed ((y :: ys).map mention) :=
            (List.cons.inj h).1
          refine further_inj hxs hys ?_
          rw [List.map_cons, List.map_cons, listed_cons, listed_cons] at hlisted
          rw [List.map_cons, List.map_cons, further_cons, further_cons, hlisted]

theorem noted_code_inj {xs ys : List String} (hxs : ∀ x ∈ xs, Inline x) (hys : ∀ y ∈ ys, Inline y)
    (h : noted (xs.map code) = noted (ys.map code)) : xs = ys := by
  have hmap (xs : List String) : xs.map code = (xs.map (·, false)).map mention := by
    simp [code_eq_mention, Function.comp_def]
  rw [hmap, hmap] at h
  have hpairs := noted_inj (by simpa using hxs) (by simpa using hys) h
  exact (List.map_inj_right fun _ _ h => (Prod.mk.inj h).1).1 hpairs

end Markdown

end Wiring
