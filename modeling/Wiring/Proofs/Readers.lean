import Wiring.Format.Class
import Wiring.Proofs.Traversal

/-!
# What is read

`Codec.Yields` says that whatever a codec reads has a property. A record is built up from a blank one, so a
property that the blank one has and that every field keeps is one of all records that are read. The markers
of a class that is read are thus not resolved (`ClassBatch.readText_unresolved`).
-/

namespace Wiring

namespace Json

variable {α σ : Type}

/-- Whatever is read has a property. -/
def Codec.Yields (c : Codec α) (P : α → Prop) : Prop := ∀ l t a, c.read l t = .ok a → P a

/-- To read the field keeps a property of the record. -/
def RecordField.Preserves (f : RecordField σ) (P : σ → Prop) : Prop :=
  ∀ l t put, f.read l t = .ok put → ∀ s, P s → P (put s)

namespace RecordField

variable {P : σ → Prop} {Q : α → Prop} {f : RecordField σ} {fields : List (RecordField σ)}
  {c : Codec α} {set : α → σ → σ}

/-- Fields of every kind read a value and put it in its place. -/
theorem Preserves.of_read (hread : ∀ l t, f.read l t = (c.read l t).map set) (hc : c.Yields Q)
    (hset : ∀ a s, Q a → P s → P (set a s)) : f.Preserves P := by
  intro l t put hput s hs
  rw [hread] at hput
  cases ha : c.read l t with
  | error e =>
      rw [ha] at hput
      cases hput
  | ok a =>
      rw [ha] at hput
      cases hput
      exact hset a s (hc l t a ha) hs

/-- The property does not depend on the field. -/
theorem Preserves.of_untouched (hread : ∀ l t, f.read l t = (c.read l t).map set)
    (hset : ∀ a s, P s → P (set a s)) : f.Preserves P :=
  .of_read (Q := fun _ => True) hread (fun _ _ _ _ => trivial) fun a s _ hs => hset a s hs

theorem readMembers_preserves (hf : ∀ f ∈ fields, f.Preserves P) {l : Limits}
    {ms : List (Tree × Tree)} {seen seen' : List String} {s s' : σ} (hs : P s)
    (h : readMembers fields l seen s ms = .ok (seen', s')) : P s' := by
  induction ms generalizing seen s with
  | nil =>
      cases h
      exact hs
  | cons m ms ih =>
      obtain ⟨k, _, h⟩ := bind_eq_ok.1 h
      cases hfind : fields.find? fun f => f.key == k with
      | none =>
          simp only [hfind] at h
          obtain ⟨_, _, h⟩ := bind_eq_ok.1 h
          exact ih hs h
      | some f =>
          simp only [hfind] at h
          split at h
          · cases h
          · obtain ⟨put, hput, h⟩ := bind_eq_ok.1 h
            exact ih (hf f (List.mem_of_find?_eq_some hfind) l m.2 put hput s hs) h

theorem readItems_preserves (hf : ∀ f ∈ fields, f.Preserves P) {fault : Option Fault}
    {wanted : Wanted} {l : Limits} {ts : List Tree} {done : Nat} {s s' : σ} (hs : P s)
    (h : readItems fault wanted l done s fields ts = .ok s') : P s' := by
  induction fields generalizing ts done s with
  | nil =>
      cases ts with
      | nil =>
          cases fault with
          | none =>
              cases h
              exact hs
          | some f => cases h
      | cons t ts =>
          rw [readItems] at h
          split at h <;> cases h
  | cons f fields ih =>
      have hrest : ∀ f ∈ fields, f.Preserves P := fun g hg => hf g (List.mem_cons_of_mem f hg)
      cases ts with
      | nil =>
          obtain ⟨_, _, h⟩ := bind_eq_ok.1 h
          split at h
          · cases h
          · exact ih hrest hs h
      | cons t ts =>
          obtain ⟨put, hput, h⟩ := bind_eq_ok.1 h
          exact ih hrest (hf f List.mem_cons_self l t put hput s hs) h

end RecordField

namespace Codec

variable {P : α → Prop} {c : Codec α}

theorem yields_record {P : σ → Prop} {name : String} {blank : σ} {fields : List (RecordField σ)}
    (hblank : P blank) (hf : ∀ f ∈ fields, f.Preserves P) : (record name blank fields).Yields P := by
  intro l t s h
  cases t with
  | scalar x => cases h
  | array ts fault =>
      obtain ⟨l', _, h⟩ := bind_eq_ok.1 h
      exact RecordField.readItems_preserves hf hblank h
  | object ms fault =>
      obtain ⟨l', _, h⟩ := bind_eq_ok.1 h
      obtain ⟨⟨seen, s'⟩, hms, h⟩ := bind_eq_ok.1 h
      obtain ⟨_, _, h⟩ := bind_eq_ok.1 h
      split at h
      · cases h
      · cases h
        exact RecordField.readMembers_preserves hf hblank hms

theorem items_yields (hc : c.Yields P) {l : Limits} {ts : List Tree} {as : List α}
    (h : Reader.items c.read l ts = .ok as) : ∀ a ∈ as, P a := by
  induction ts generalizing as with
  | nil =>
      cases h
      exact List.forall_mem_nil P
  | cons t ts ih =>
      obtain ⟨a, ha, h⟩ := bind_eq_ok.1 h
      obtain ⟨rest, hrest, h⟩ := bind_eq_ok.1 h
      cases h
      exact List.forall_mem_cons.2 ⟨hc l t a ha, ih hrest⟩

theorem yields_list (hc : c.Yields P) : (list c).Yields fun as => ∀ a ∈ as, P a := by
  intro l t as h
  cases t with
  | scalar x => cases h
  | object ms fault => cases h
  | array ts fault =>
      obtain ⟨l', _, h⟩ := bind_eq_ok.1 h
      obtain ⟨as', has, h⟩ := bind_eq_ok.1 h
      obtain ⟨_, _, h⟩ := bind_eq_ok.1 h
      cases h
      exact items_yields hc has

theorem Yields.readText (hc : c.Yields P) {text : String} {a : α} (h : c.readText text = .ok a) :
    P a := by
  obtain ⟨a', ha, h⟩ := bind_eq_ok.1 h
  split at h
  · cases h
  · cases h
    exact hc _ _ _ ha

end Codec

end Json

open Json Json.Codec Json.RecordField

/-! ## Class files -/

theorem CapabilitySet.yields : codec.Yields fun k => k.isResolved = false := by
  refine yields_record rfl ?_
  simp only [List.forall_mem_cons]
  exact ⟨.of_untouched (fun _ _ => rfl) fun _ _ h => h, .of_untouched (fun _ _ => rfl) fun _ _ h => h,
    List.forall_mem_nil _⟩

theorem ClassModel.yields : codec.Yields fun c => c.capabilities.isResolved = false := by
  refine yields_record rfl ?_
  simp only [List.forall_mem_cons]
  exact ⟨.of_untouched (fun _ _ => rfl) fun _ _ h => h, .of_untouched (fun _ _ => rfl) fun _ _ h => h,
    .of_untouched (fun _ _ => rfl) fun _ _ h => h, .of_untouched (fun _ _ => rfl) fun _ _ h => h,
    .of_read (fun _ _ => rfl) CapabilitySet.yields fun _ _ h _ => h,
    .of_untouched (fun _ _ => rfl) fun _ _ h => h, .of_untouched (fun _ _ => rfl) fun _ _ h => h,
    .of_untouched (fun _ _ => rfl) fun _ _ h => h, .of_untouched (fun _ _ => rfl) fun _ _ h => h,
    .of_untouched (fun _ _ => rfl) fun _ _ h => h, .of_untouched (fun _ _ => rfl) fun _ _ h => h,
    List.forall_mem_nil _⟩

theorem ClassBatch.yields :
    codec.Yields fun b => ∀ c ∈ b.classes, c.capabilities.isResolved = false := by
  refine yields_record (List.forall_mem_nil _) ?_
  simp only [List.forall_mem_cons]
  exact ⟨.of_untouched (fun _ _ => rfl) fun _ _ h => h,
    .of_read (fun _ _ => rfl) (yields_list ClassModel.yields) fun _ _ h _ => h, List.forall_mem_nil _⟩

theorem ClassBatch.readText_unresolved {text : String} {b : ClassBatch}
    (h : codec.readText text = .ok b) : ∀ c ∈ b.classes, c.capabilities.isResolved = false :=
  ClassBatch.yields.readText h

end Wiring
