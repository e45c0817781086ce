import Wiring.Files.Search

/-!
# Steps of paths

A path is split at its slashes (`Path.steps`), and so is what it is joined with (`Path.exists_steps_join`). Its
components are its steps that say something, after the root or a dot in front (`Path.components_eq`).
-/

namespace Wiring

namespace Path

/-! ## Splitting -/

theorem split_ne_nil (cs : List Char) : split cs ≠ [] := by
  unfold split
  split
  · exact List.cons_ne_nil _ _
  · split
    · exact List.cons_ne_nil _ _
    · split <;> exact List.cons_ne_nil _ _

theorem split_cons_of_ne {c : Char} (hc : c ≠ '/') (cs : List Char) :
    ∃ s ss, split cs = s :: ss ∧ split (c :: cs) = (c :: s) :: ss := by
  obtain ⟨s, ss, hcs⟩ := List.exists_cons_of_ne_nil (split_ne_nil cs)
  refine ⟨s, ss, hcs, ?_⟩
  rw [split, if_neg hc, hcs]

theorem split_append_slash (cs ds : List Char) : split (cs ++ '/' :: ds) = split cs ++ split ds := by
  induction cs with
  | nil => simp [split]
  | cons c cs ih =>
      by_cases hc : c = '/'
      · subst hc
        simp [split, ih]
      · obtain ⟨s, ss, hcs, hsplit⟩ := split_cons_of_ne hc cs
        rw [hcs] at ih
        rw [List.cons_append, split, if_neg hc, ih, hsplit]
        rfl

theorem split_of_not_mem {cs : List Char} (h : '/' ∉ cs) : split cs = [cs] := by
  induction cs with
  | nil => rfl
  | cons c cs ih =>
      obtain ⟨hc, hcs⟩ := not_or.1 (fun hmem => h (List.mem_cons.2 hmem))
      rw [split, if_neg (Ne.symm hc), ih hcs]

theorem mem_of_mem_split {cs s : List Char} (hs : s ∈ split cs) : '/' ∉ s ∧ ∀ c ∈ s, c ∈ cs := by
  induction cs generalizing s with
  | nil =>
      rw [split, List.mem_singleton] at hs
      subst hs
      exact ⟨List.not_mem_nil, fun _ h => absurd h List.not_mem_nil⟩
  | cons d cs ih =>
      by_cases hd : d = '/'
      · rw [split, if_pos hd] at hs
        rcases List.mem_cons.1 hs with rfl | hs
        · exact ⟨List.not_mem_nil, fun _ h => absurd h List.not_mem_nil⟩
        · exact ⟨(ih hs).1, fun c hc => List.mem_cons_of_mem d ((ih hs).2 c hc)⟩
      · obtain ⟨r, ss, hcs, hsplit⟩ := split_cons_of_ne hd cs
        rw [hcs] at ih
        rw [hsplit] at hs
        rcases List.mem_cons.1 hs with rfl | hs
        · obtain ⟨hslash, hmem⟩ := ih List.mem_cons_self
          refine ⟨fun h => ?_, fun c hc => ?_⟩
          · exact (List.mem_cons.1 h).elim (fun h => hd h.symm) hslash
          · rcases List.mem_cons.1 hc with rfl | hc
            · exact List.mem_cons_self
            · exact List.mem_cons_of_mem d (hmem c hc)
        · obtain ⟨hslash, hmem⟩ := ih (List.mem_cons_of_mem r hs)
          exact ⟨hslash, fun c hc => List.mem_cons_of_mem d (hmem c hc)⟩

/-! ## Steps -/

/-- A path without the slash that it starts at the root by. -/
def relative (path : String) : List Char :=
  if isAbsolute path then path.toList.drop 1 else path.toList

/-- The steps that a path takes from where it starts. -/
def steps (path : String) : List (List Char) := split (relative path)

theorem isAbsolute_iff {path : String} :
    isAbsolute path = true ↔ path.toList = '/' :: relative path := by
  unfold relative isAbsolute
  cases path.toList with
  | nil => simp
  | cons c cs =>
      by_cases hc : c = '/' <;> simp [hc]

theorem relative_of_not_absolute {path : String} (h : isAbsolute path = false) :
    relative path = path.toList := by
  rw [relative, h, if_neg (by simp)]

/-- Only an empty path, or one from the root, starts with an empty step. -/
theorem exists_steps_cons {path : String} (hpath : path ≠ "") (habsolute : isAbsolute path = false) :
    ∃ c s ss, steps path = (c :: s) :: ss := by
  obtain ⟨c, cs, hcs⟩ := List.exists_cons_of_ne_nil fun hnil => hpath (String.toList_eq_nil_iff.1 hnil)
  have hc : c ≠ '/' := fun hc => by simp [isAbsolute, hcs, hc] at habsolute
  obtain ⟨s, ss, _, hsplit⟩ := split_cons_of_ne hc cs
  exact ⟨c, s, ss, by rw [steps, relative_of_not_absolute habsolute, hcs, hsplit]⟩

theorem mem_steps {path : String} {s : List Char} (hs : s ∈ steps path) :
    '/' ∉ s ∧ ∀ c ∈ s, c ∈ path.toList := by
  obtain ⟨hslash, hmem⟩ := mem_of_mem_split hs
  refine ⟨hslash, fun c hc => ?_⟩
  have hrel := hmem c hc
  unfold relative at hrel
  split at hrel
  · exact List.mem_of_mem_drop hrel
  · exact hrel

theorem isAbsolute_ofList {s : List Char} (h : '/' ∉ s) : isAbsolute (.ofList s) = false := by
  rw [isAbsolute, String.toList_ofList]
  cases s with
  | nil => rfl
  | cons c cs =>
      have hc : c ≠ '/' := fun hc => h (hc ▸ List.mem_cons_self)
      simpa using hc

theorem steps_ofList {s : List Char} (h : '/' ∉ s) : steps (.ofList s) = [s] := by
  rw [steps, relative_of_not_absolute (isAbsolute_ofList h), String.toList_ofList, split_of_not_mem h]

theorem toList_join (path : String) {s : List Char} (hs : '/' ∉ s) :
    (join path (.ofList s)).toList =
      path.toList ++ if path.toList.getLast?.all (· == '/') then s else '/' :: s := by
  rw [join, isAbsolute_ofList hs, if_neg (by simp)]
  split <;> simp [String.toList_append]

theorem relative_eq_of_append {path path' : String} {cs : List Char} (hpath : path ≠ "")
    (h : path'.toList = path.toList ++ cs) :
    isAbsolute path' = isAbsolute path ∧ relative path' = relative path ++ cs := by
  obtain ⟨d, ds, hd⟩ := List.exists_cons_of_ne_nil (fun hnil => hpath (String.toList_eq_nil_iff.1 hnil))
  have habsolute : isAbsolute path' = isAbsolute path := by
    rw [isAbsolute, isAbsolute, h, hd]
    rfl
  refine ⟨habsolute, ?_⟩
  rw [relative, relative, habsolute, h, hd]
  split <;> rfl

theorem relative_cases {path : String} {cs : List Char} {c : Char} (h : path.toList = cs ++ [c]) :
    relative path = [] ∨ ∃ ds, relative path = ds ++ [c] := by
  unfold relative
  rw [h]
  split
  · cases cs with
    | nil => exact Or.inl rfl
    | cons d ds => exact Or.inr ⟨ds, rfl⟩
  · exact Or.inr ⟨cs, rfl⟩

/-- What is joined to a path is its last step; an empty step in front of it is dropped. -/
theorem exists_steps_join {path : String} (hpath : path ≠ "") {s : List Char} (hs : '/' ∉ s) :
    ∃ ss, steps (join path (.ofList s)) = ss ++ [s] ∧
      (steps path = ss ∨ steps path = ss ++ [[]]) := by
  obtain ⟨_, hjoin⟩ := relative_eq_of_append hpath (toList_join path hs)
  obtain ⟨cs, c, hcs⟩ := (List.eq_nil_or_concat path.toList).resolve_left
    fun hnil => hpath (String.toList_eq_nil_iff.1 hnil)
  rw [List.concat_eq_append] at hcs
  rw [hcs, List.getLast?_concat, Option.all_some] at hjoin
  rw [steps, steps, hjoin]
  by_cases hc : c = '/'
  · subst hc
    rw [if_pos (by decide)]
    rcases relative_cases hcs with hnil | ⟨ds, hds⟩
    · refine ⟨[], ?_, Or.inr ?_⟩
      · rw [hnil, List.nil_append, split_of_not_mem hs, List.nil_append]
      · rw [hnil]
        rfl
    · refine ⟨split ds, ?_, Or.inr ?_⟩
      · rw [hds, List.append_assoc, List.singleton_append, split_append_slash, split_of_not_mem hs]
      · rw [hds, split_append_slash]
        rfl
  · rw [if_neg (by simpa using hc)]
    refine ⟨split (relative path), ?_, Or.inl rfl⟩
    rw [split_append_slash, split_of_not_mem hs]

/-! ## Components -/

/-- What a path starts with by itself. -/
def lead (path : String) : List Component :=
  if isAbsolute path then [.root] else if (steps path).head? = some ['.'] then [.here] else []

theorem component?_ne_here {s : List Char} : component? false s ≠ some .here := by
  unfold component?
  split <;> simp

theorem component?_true_of_ne {s : List Char} (h : s ≠ ['.']) :
    component? true s = component? false s := by
  unfold component?
  split <;> simp_all

theorem components_eq (path : String) :
    components path = lead path ++ (steps path).filterMap (component? false) := by
  cases habsolute : isAbsolute path with
  | true =>
      have htext := isAbsolute_iff.1 habsolute
      have hsplit : split path.toList = [] :: steps path := by rw [htext, split, if_pos rfl, steps]
      have hne := split_ne_nil (relative path)
      rw [components, hsplit, lead, habsolute, if_pos rfl]
      simp [steps, hne]
  | false =>
      have hsteps : steps path = split path.toList := by rw [steps, relative_of_not_absolute habsolute]
      by_cases hpath : path = ""
      · subst hpath
        rfl
      · obtain ⟨c, s, ss, hcons⟩ := exists_steps_cons hpath habsolute
        rw [components, lead, habsolute, if_neg (by simp), ← hsteps, hcons]
        by_cases hdot : c :: s = ['.']
        · simp [hdot, component?]
        · simp only [component?_true_of_ne hdot, List.head?_cons, Option.some.injEq, hdot, if_false,
            List.nil_append, List.filterMap_cons]
          cases component? false (c :: s) <;> rfl

theorem head?_steps_join {path : String} (hpath : path ≠ "") (habsolute : isAbsolute path = false)
    {s : List Char} {ss : List (List Char)} (h : steps path = ss ∨ steps path = ss ++ [[]]) :
    (ss ++ [s]).head? = (steps path).head? := by
  cases ss with
  | nil =>
      obtain ⟨c, r, rs, hcons⟩ := exists_steps_cons hpath habsolute
      simp [hcons] at h
  | cons r ss => rcases h with h | h <;> rw [h] <;> rfl

/-- An empty step at the end says nothing. -/
theorem filterMap_trimmed {ss rs : List (List Char)} (h : rs = ss ∨ rs = ss ++ [[]]) :
    rs.filterMap (component? false) = ss.filterMap (component? false) := by
  rcases h with rfl | rfl
  · rfl
  · simp [component?]

/-- Joined to a path, a step is one more component, or none if it says nothing. -/
theorem components_join {path : String} (hpath : path ≠ "") {s : List Char} (hs : '/' ∉ s) :
    components (join path (.ofList s)) = components path ++ (component? false s).toList := by
  obtain ⟨ss, hjoin, hsteps⟩ := exists_steps_join hpath hs
  obtain ⟨habsolute, _⟩ := relative_eq_of_append hpath (toList_join path hs)
  have hlead : lead (join path (.ofList s)) = lead path := by
    rw [lead, lead, habsolute, hjoin]
    cases hpath' : isAbsolute path with
    | true => rfl
    | false => rw [head?_steps_join hpath hpath' hsteps]
  rw [components_eq, components_eq path, hlead, hjoin, filterMap_trimmed hsteps, List.filterMap_append,
    List.append_assoc]
  cases hs' : component? false s <;> simp [hs']

theorem components_ne_nil {path : String} (hpath : path ≠ "") : components path ≠ [] := by
  rw [components_eq, lead]
  cases habsolute : isAbsolute path with
  | true => simp
  | false =>
      obtain ⟨c, s, ss, hcons⟩ := exists_steps_cons hpath habsolute
      rw [hcons]
      by_cases hdot : c :: s = ['.']
      · simp [hdot]
      · have hsome : component? false (c :: s) ≠ none := by
          unfold component?
          split <;> simp_all
        intro hnil
        have hall := List.filterMap_eq_nil_iff.1 (List.append_eq_nil_iff.1 hnil).2
        exact hsome (hall _ List.mem_cons_self)

/-! ## Names -/

/-- A name that something in a directory can have: it is one step, and says something. -/
def IsName (name : String) : Prop :=
  '/' ∉ name.toList ∧ component? false name.toList = some (.name name.toList)

instance (name : String) : Decidable (IsName name) := inferInstanceAs (Decidable (_ ∧ _))

namespace IsName

variable {name : String}

theorem ne_nil (h : IsName name) : name.toList ≠ [] := by
  intro hnil
  have hcomponent := h.2
  rw [hnil] at hcomponent
  cases hcomponent

theorem ne_dot (h : IsName name) : name.toList ≠ ['.'] := by
  intro hdot
  have hcomponent := h.2
  rw [hdot] at hcomponent
  cases hcomponent

end IsName

/-- The components of a path without a dot in front. -/
def undotted (path : String) : List Component := (components path).filter (· ≠ .here)

theorem filter_component? {l : List Component} (h : ∀ k ∈ l, ∃ s, component? false s = some k) :
    l.filter (· ≠ .here) = l := by
  refine List.filter_eq_self.2 fun k hk => ?_
  obtain ⟨s, hs⟩ := h k hk
  simpa using fun hk => component?_ne_here (hk ▸ hs)

theorem undotted_eq (path : String) :
    undotted path =
      (if isAbsolute path then [.root] else []) ++ (steps path).filterMap (component? false) := by
  have hsteps := filter_component? (l := (steps path).filterMap (component? false)) fun k hk =>
    let ⟨s, _, hs⟩ := List.mem_filterMap.1 hk
    ⟨s, hs⟩
  rw [undotted, components_eq, List.filter_append, hsteps, lead]
  split
  · rfl
  · split <;> rfl

end Path

/-! ## Paths of entries -/

namespace Disk

open Wiring.Path

variable {dir : String} {s : List Char}

theorem undotted_entryPath (hdir : dir ≠ "") (hs : '/' ∉ s) :
    undotted (entryPath dir (.ofList s)) = undotted dir ++ (component? false s).toList := by
  by_cases hhere : components dir = [.here]
  · have hnone : undotted dir = [] := by rw [undotted, hhere]; rfl
    rw [entryPath, if_pos hhere, hnone, undotted_eq, isAbsolute_ofList hs, steps_ofList hs]
    cases h : component? false s <;> simp [h]
  · have hstep : ((component? false s).toList).filter (· ≠ .here) = (component? false s).toList :=
      filter_component? fun k hk => ⟨s, Option.mem_toList.1 hk⟩
    rw [entryPath, if_neg hhere, undotted, components_join hdir hs, List.filter_append, hstep, undotted]

theorem components_entryPath (hdir : dir ≠ "") (hs : '/' ∉ s)
    (hdot : components dir = [.here] → s ≠ ['.']) :
    components (entryPath dir (.ofList s)) =
      (if components dir = [.here] then [] else components dir) ++ (component? false s).toList := by
  by_cases hhere : components dir = [.here]
  · have hlead : lead (.ofList s) = [] := by simp [lead, isAbsolute_ofList hs, steps_ofList hs, hdot hhere]
    rw [entryPath, if_pos hhere, if_pos hhere, components_eq, hlead, steps_ofList hs]
    cases h : component? false s <;> simp [h]
  · rw [entryPath, if_neg hhere, if_neg hhere, components_join hdir hs]

/-- Once it has left the working directory, a path has left it for good. -/
theorem components_entryPath_ne (hdir : dir ≠ "") (hs : '/' ∉ s)
    (hdot : components dir = [.here] → s ≠ ['.']) :
    components (entryPath dir (.ofList s)) ≠ [.here] := by
  rw [components_entryPath hdir hs hdot]
  split
  · cases h : component? false s with
    | none => simp
    | some k =>
        rintro heq
        obtain rfl : k = .here := by simpa using heq
        exact component?_ne_here h
  · rename_i hhere
    intro heq
    rcases List.append_eq_singleton_iff.1 heq with ⟨hnil, _⟩ | ⟨hdir', _⟩
    · exact components_ne_nil hdir hnil
    · exact hhere hdir'

theorem fileName?_entryPath (hdir : dir ≠ "") {name : String} (hname : IsName name) :
    fileName? (entryPath dir name) = some name := by
  have hcomponents := components_entryPath hdir hname.1 fun _ => hname.ne_dot
  rw [String.ofList_toList, hname.2] at hcomponents
  simp [fileName?, hcomponents]

end Disk

end Wiring
