import Wiring.Proofs.Paths

/-!
# Volumes

What there is to look at on a disk, apart from how it is looked at: places, the names in those that are
directories, and what a name leads to. A path is followed step by step (`Volume.at?`). A file tree is one
(`FileTree.volume`), and its host shows just that (`FileTree.shows_volume`).
-/

namespace Wiring

open Wiring.Path

/-- Places, some of which are directories. -/
structure Volume (Place : Type) where
  /-- The root, if paths can start there. -/
  root : Option Place
  /-- The working directory. -/
  here : Place
  /-- The names in a directory. -/
  names? : Place → Option (List String)
  /-- What a name leads to in a directory. Two dots are such a name. -/
  entry? : Place → String → Option Place
  isName : ∀ place names, names? place = some names → ∀ name ∈ names, IsName name

namespace Volume

variable {Place : Type} (v : Volume Place)

/-- Takes a step from a directory. An empty one and a dot stay there. -/
def step? (place : Place) (s : List Char) : Option Place :=
  if (v.names? place).isNone then none
  else if s = [] ∨ s = ['.'] then some place
  else v.entry? place (.ofList s)

def follow? (place : Place) (ss : List (List Char)) : Option Place := ss.foldlM v.step? place

/-- Where a path starts. -/
def start? (path : String) : Option Place := if isAbsolute path then v.root else some v.here

/-- What a path leads to. The empty one leads nowhere. -/
def at? (path : String) : Option Place :=
  if path = "" then none else (v.start? path).bind (v.follow? · (steps path))

def isDir (path : String) : Bool := ((v.at? path).bind v.names?).isSome

variable {v} {place place' : Place} {path : String} {s : List Char} {ss : List (List Char)}

theorem ne_empty_of_at? (h : v.at? path = some place) : path ≠ "" := by
  rintro rfl
  cases h

theorem follow?_singleton : v.follow? place [s] = v.step? place s := by simp [follow?]

theorem follow?_append_singleton :
    v.follow? place (ss ++ [s]) = (v.follow? place ss).bind (v.step? · s) := by
  rw [follow?, List.foldlM_append]
  exact congrArg _ (funext fun p => follow?_singleton)

theorem isSome_of_step? (h : v.step? place s = some place') : (v.names? place).isSome := by
  unfold step? at h
  split at h
  · cases h
  · rename_i hnone
    simpa [Option.isSome_iff_ne_none] using hnone

theorem step?_idle (hs : s = [] ∨ s = ['.']) (h : (v.names? place).isSome) :
    v.step? place s = some place := by
  rw [step?, if_neg (by simpa [Option.isSome_iff_ne_none] using h), if_pos hs]

/-- A step that is said by nothing leads nowhere else. -/
theorem eq_of_step?_idle (hs : s = [] ∨ s = ['.']) (h : v.step? place s = some place') :
    place' = place := by
  rw [step?_idle hs (isSome_of_step? h)] at h
  exact (Option.some.inj h).symm

theorem eq_of_follow?_idle (hss : ∀ s ∈ ss, s = [] ∨ s = ['.'])
    (h : v.follow? place ss = some place') : place' = place := by
  induction ss generalizing place with
  | nil => exact (Option.some.inj h).symm
  | cons s ss ih =>
      obtain ⟨p, hp, hrest⟩ := Option.bind_eq_some_iff.1 h
      rw [ih (fun r hr => hss r (List.mem_cons_of_mem s hr)) hrest,
        eq_of_step?_idle (hss s List.mem_cons_self) hp]

/-- An empty step at the end leads nowhere else. -/
theorem follow?_trimmed {rs : List (List Char)} (hrs : rs = ss ∨ rs = ss ++ [[]])
    (h : v.follow? place rs = some place') : v.follow? place ss = some place' := by
  rcases hrs with rfl | rfl
  · exact h
  · rw [follow?_append_singleton] at h
    obtain ⟨last, hlast, hstep⟩ := Option.bind_eq_some_iff.1 h
    rw [hlast, eq_of_step?_idle (Or.inl rfl) hstep]

/-- A path that is the working directory leads there. -/
theorem eq_here_of_at? (hpath : components path = [.here]) (h : v.at? path = some place) :
    place = v.here := by
  have hcomponents := hpath
  rw [components_eq, lead] at hcomponents
  cases habsolute : isAbsolute path with
  | true => simp [habsolute] at hcomponents
  | false =>
      have hsteps : (steps path).filterMap (component? false) = [] := by
        have hundotted := undotted_eq path
        rw [habsolute, if_neg (by simp), List.nil_append, undotted, hpath] at hundotted
        exact hundotted.symm
      rw [at?, if_neg (ne_empty_of_at? h), start?, habsolute, if_neg (by simp), Option.bind_some] at h
      refine eq_of_follow?_idle (fun s hs => ?_) h
      have hnone := List.filterMap_eq_nil_iff.1 hsteps s hs
      unfold component? at hnone
      split at hnone <;> simp_all

/-- What the path of an entry leads to is found by one more step. -/
theorem at?_entryPath (h : v.at? path = some place) (hs : '/' ∉ s)
    (hne : components path = [.here] → s ≠ []) :
    v.at? (Disk.entryPath path (.ofList s)) = v.step? place s := by
  have hpath := ne_empty_of_at? h
  by_cases hhere : components path = [.here]
  · have hname : String.ofList s ≠ "" := fun hs' => hne hhere (String.ofList_eq_empty_iff.1 hs')
    rw [eq_here_of_at? hhere h, Disk.entryPath, if_pos hhere, at?, if_neg hname, start?,
      isAbsolute_ofList hs, if_neg (by simp), steps_ofList hs, Option.bind_some, follow?_singleton]
  · obtain ⟨ss, hjoin, hsteps⟩ := exists_steps_join hpath hs
    obtain ⟨habsolute, _⟩ := relative_eq_of_append hpath (toList_join path hs)
    have hjoined : join path (.ofList s) ≠ "" := by
      intro hempty
      have htext := toList_join path hs
      rw [hempty] at htext
      exact hpath (String.toList_eq_nil_iff.1 (List.append_eq_nil_iff.1 htext.symm).1)
    have hplace : (v.start? path).bind (v.follow? · ss) = some place := by
      rw [at?, if_neg hpath] at h
      obtain ⟨first, hfirst, hfollow⟩ := Option.bind_eq_some_iff.1 h
      rw [hfirst, Option.bind_some, follow?_trimmed hsteps hfollow]
    have hlast : (v.follow? · (ss ++ [s])) = fun p => (v.follow? p ss).bind (v.step? · s) :=
      funext fun _ => follow?_append_singleton
    rw [Disk.entryPath, if_neg hhere, at?, if_neg hjoined, start?, habsolute, hjoin, ← start?, hlast,
      ← Option.bind_assoc, hplace, Option.bind_some]

theorem step?_name {names : List String} (hnames : v.names? place = some names) {name : String}
    (hname : IsName name) : v.step? place name.toList = v.entry? place name := by
  have hidle : ¬(name.toList = [] ∨ name.toList = ['.']) := not_or.2 ⟨hname.ne_nil, hname.ne_dot⟩
  rw [step?, hnames, if_neg (by simp), if_neg hidle, String.ofList_toList]

/-- A path that leads somewhere starts from a directory. -/
theorem exists_start_of_at? (h : v.at? path = some place) :
    ∃ first, v.start? path = some first ∧ (v.names? first).isSome ∧
      v.follow? first (steps path) = some place := by
  rw [at?, if_neg (ne_empty_of_at? h)] at h
  obtain ⟨first, hfirst, hfollow⟩ := Option.bind_eq_some_iff.1 h
  refine ⟨first, hfirst, ?_, hfollow⟩
  obtain ⟨s, ss, hss⟩ := List.exists_cons_of_ne_nil (split_ne_nil (relative path))
  rw [steps, hss] at hfollow
  obtain ⟨next, hnext, _⟩ := Option.bind_eq_some_iff.1 hfollow
  exact isSome_of_step? hnext

/-- Where a path starts can be told by a path. -/
theorem at?_origin {first : Place} (hfirst : v.start? path = some first)
    (hdir : (v.names? first).isSome) :
    v.at? (if isAbsolute path then "/" else ".") = some first := by
  unfold start? at hfirst
  split at hfirst
  · rename_i habsolute
    have hsteps : steps "/" = [[]] := by decide
    have hroot : isAbsolute "/" = true := by decide
    rw [if_pos habsolute, at?, if_neg (by decide), start?, hroot, if_pos rfl, hfirst, hsteps,
      Option.bind_some, follow?_singleton, step?_idle (Or.inl rfl) hdir]
  · rename_i habsolute
    cases hfirst
    have hsteps : steps "." = [['.']] := by decide
    have hroot : isAbsolute "." = false := by decide
    rw [if_neg habsolute, at?, if_neg (by decide), start?, hroot, if_neg (by simp), hsteps,
      Option.bind_some, follow?_singleton, step?_idle (Or.inr rfl) hdir]

end Volume

/-! ## What disks show -/

/-- A disk shows a volume as long as it does not change, and looking at it does not change it. It may say that
there is something where a path leads nowhere, such as a link to nothing, but not that there is something at the
empty path. -/
structure Disk.Shows {σ Place : Type} (d : Disk (StateM σ)) (t : σ) (v : Volume Place) : Prop where
  isDir : ∀ path, (d.isDir path).run t = (v.isDir path, t)
  has : ∀ path, (v.at? path).isSome → (d.has path).run t = (true, t)
  hasNot : (d.has "").run t = (false, t)
  names : ∀ path names, (v.at? path).bind v.names? = some names →
    ∃ l, l.Perm names ∧ (d.names path).run t = (l, t)

/-! ## File trees -/

namespace FileTree

mutual

/-- All that lies in a tree has a name that it can have. -/
def isNamed : FileTree → Bool
  | .file _ => true
  | .dir entries => areNamed entries

def areNamed : List (String × FileTree) → Bool
  | [] => true
  | (name, node) :: es => decide (IsName name) && node.isNamed && areNamed es

end

theorem isName_of_areNamed {entries : List (String × FileTree)} (h : areNamed entries = true)
    {e : String × FileTree} (he : e ∈ entries) : IsName e.1 ∧ e.2.isNamed = true := by
  induction entries with
  | nil => cases he
  | cons e' es ih =>
      rw [areNamed, Bool.and_eq_true, Bool.and_eq_true, decide_eq_true_eq] at h
      rcases List.mem_cons.1 he with rfl | he
      · exact h.1
      · exact ih h.2 he

theorem mem_of_lookup {entries : List (String × FileTree)} {name : String} {node : FileTree}
    (h : entries.lookup name = some node) : (name, node) ∈ entries := by
  obtain ⟨before, after, rfl, _⟩ := List.lookup_eq_some_iff.1 h
  exact List.mem_append_right _ List.mem_cons_self

theorem isNamed_of_at? {t node : FileTree} (ht : t.isNamed = true) {names : List String}
    (h : t.at? names = some node) : node.isNamed = true := by
  induction names generalizing t with
  | nil =>
      cases h
      exact ht
  | cons n ns ih =>
      obtain ⟨u, hu, hrest⟩ := Option.bind_eq_some_iff.1 h
      cases t with
      | file text => cases hu
      | dir entries => exact ih (isName_of_areNamed ht (mem_of_lookup hu)).2 hrest

theorem at?_append (t : FileTree) (ns ms : List String) :
    t.at? (ns ++ ms) = (t.at? ns).bind (·.at? ms) := by
  induction ns generalizing t with
  | nil => rfl
  | cons n ns ih =>
      rw [List.cons_append, at?, at?, Option.bind_assoc]
      exact congrArg _ (funext fun u => ih u)

/-- The names in a directory. -/
def entryNames? : FileTree → Option (List String)
  | .file _ => none
  | .dir entries => some (entries.map (·.1))

/-- A tree with the names that lead to its places, the last name first. Nothing lies above it. -/
def volume (t : FileTree) (h : t.isNamed = true) : Volume (List String) where
  root := none
  here := []
  names? place := (t.at? place.reverse).bind entryNames?
  entry? place name :=
    if name = ".." then place.tail?
    else ((t.at? place.reverse).bind fun node => node.entry? name).map fun _ => name :: place
  isName place names hnames name hname := by
    obtain ⟨node, hnode, hentries⟩ := Option.bind_eq_some_iff.1 hnames
    cases node with
    | file text => cases hentries
    | dir entries =>
        cases hentries
        obtain ⟨e, he, rfl⟩ := List.mem_map.1 hname
        exact (isName_of_areNamed (isNamed_of_at? h hnode) he).1

variable {t : FileTree} {h : t.isNamed = true}

theorem step?_volume (place : List String) (s : List Char) :
    (t.volume h).step? place s =
      match t.at? place.reverse with
      | some (.dir entries) =>
        if s = [] ∨ s = ['.'] then some place
        else if s = ['.', '.'] then place.tail?
        else (entries.lookup (.ofList s)).map fun _ => .ofList s :: place
      | _ => none := by
  have hdots : String.ofList s = ".." ↔ s = ['.', '.'] := by
    rw [← String.toList_inj, String.toList_ofList]
    rfl
  simp only [Volume.step?, volume, hdots]
  cases t.at? place.reverse with
  | none => rfl
  | some node =>
      cases node with
      | file text => rfl
      | dir entries => rfl

theorem toOption_follow (place : List String) (parts : List (List Char)) :
    (t.follow place parts).toOption = (t.volume h).follow? place parts := by
  induction parts generalizing place with
  | nil => rfl
  | cons part parts ih =>
      have hfollow : (t.volume h).follow? place (part :: parts) =
          ((t.volume h).step? place part).bind ((t.volume h).follow? · parts) := rfl
      rw [hfollow, step?_volume]
      unfold follow
      cases t.at? place.reverse with
      | none => rfl
      | some node =>
          cases node with
          | file text => rfl
          | dir entries =>
              dsimp only
              split
              · exact ih place
              · split
                · cases place with
                  | nil => rfl
                  | cons n up => exact ih up
                · cases entries.lookup (.ofList part) with
                  | none => rfl
                  | some node => exact ih _

/-- What a step leads to is there. -/
theorem isSome_of_step {place place' : List String} {part : List Char}
    (hstep : (t.volume h).step? place part = some place')
    (hplace : (t.at? place.reverse).isSome) : (t.at? place'.reverse).isSome := by
  rw [step?_volume] at hstep
  obtain ⟨node, hnode⟩ := Option.isSome_iff_exists.1 hplace
  rw [hnode] at hstep
  cases node with
  | file text => cases hstep
  | dir entries =>
      dsimp only at hstep
      split at hstep
      · cases hstep
        exact hplace
      · split at hstep
        · cases place with
          | nil => cases hstep
          | cons n up =>
              cases hstep
              rw [List.reverse_cons, at?_append] at hnode
              obtain ⟨above, habove, _⟩ := Option.bind_eq_some_iff.1 hnode
              rw [habove, Option.isSome_some]
        · obtain ⟨below, hbelow, rfl⟩ := Option.map_eq_some_iff.1 hstep
          rw [List.reverse_cons, at?_append, hnode, Option.bind_some, at?, entry?, hbelow]
          rfl

theorem isSome_of_follow? {place place' : List String} {parts : List (List Char)}
    (hfollow : (t.volume h).follow? place parts = some place')
    (hplace : (t.at? place.reverse).isSome) : (t.at? place'.reverse).isSome := by
  induction parts generalizing place with
  | nil =>
      cases hfollow
      exact hplace
  | cons part parts ih =>
      obtain ⟨next, hnext, hrest⟩ := Option.bind_eq_some_iff.1 hfollow
      exact ih hrest (isSome_of_step hnext hplace)

theorem isSome_of_at? {path : String} {place : List String}
    (hplace : (t.volume h).at? path = some place) : (t.at? place.reverse).isSome := by
  rw [Volume.at?, if_neg (Volume.ne_empty_of_at? hplace)] at hplace
  obtain ⟨first, hfirst, hfollow⟩ := Option.bind_eq_some_iff.1 hplace
  refine isSome_of_follow? hfollow ?_
  unfold Volume.start? at hfirst
  split at hfirst
  · cases hfirst
  · cases hfirst
    rfl

theorem toOption_resolve (path : String) :
    (t.resolve path).toOption = ((t.volume h).at? path).bind fun place => t.at? place.reverse := by
  unfold resolve Volume.at? parts?
  by_cases hempty : path = ""
  · subst hempty
    rfl
  · have hempty' : path.isEmpty = false := by simpa using hempty
    rw [if_neg hempty, hempty', if_neg (by simp)]
    cases habsolute : isAbsolute path with
    | true =>
        rw [Volume.start?, habsolute]
        rfl
    | false =>
        have hsteps : steps path = split path.toList := by rw [steps, relative_of_not_absolute habsolute]
        have hhere : (t.volume h).here = [] := rfl
        rw [Volume.start?, habsolute, if_neg (by simp), if_neg (by simp), Option.bind_some, hsteps,
          ← toOption_follow, hhere]
        cases hfollow : t.follow [] (split path.toList) with
        | error absence =>
            have hparts : t.followParts (split path.toList) = .error absence := by
              rw [followParts, hfollow]
              rfl
            simp [bind, Except.bind, hparts, Except.toOption]
        | ok place =>
            have hparts : t.followParts (split path.toList) = .ok place.reverse := by
              rw [followParts, hfollow]
              rfl
            cases hnode : t.at? place.reverse <;>
              simp [bind, Except.bind, hparts, hnode, Except.toOption]

theorem resolve_cases (path : String) :
    ((t.volume h).at? path = none ∧ ∃ absence, t.resolve path = .error absence) ∨
      ∃ place node, (t.volume h).at? path = some place ∧ t.at? place.reverse = some node ∧
        t.resolve path = .ok node := by
  have hresolve := toOption_resolve (h := h) path
  cases hplace : (t.volume h).at? path with
  | none =>
      refine Or.inl ⟨rfl, ?_⟩
      cases hr : t.resolve path with
      | error absence => exact ⟨absence, rfl⟩
      | ok node => simp [hplace, hr, Except.toOption] at hresolve
  | some place =>
      obtain ⟨node, hnode⟩ := Option.isSome_iff_exists.1 (isSome_of_at? hplace)
      refine Or.inr ⟨place, node, rfl, hnode, ?_⟩
      cases hr : t.resolve path with
      | error absence => simp [hplace, hnode, hr, Except.toOption] at hresolve
      | ok node' =>
          obtain rfl : node' = node := by simpa [hplace, hnode, hr, Except.toOption] using hresolve
          rfl

/-- What a host shows of a file tree is the tree. -/
theorem shows_volume (h : t.isNamed = true) : FileTree.host.toDisk.Shows t (t.volume h) where
  isDir path := by
    have hdir : t.isDir path = (t.volume h).isDir path := by
      rw [FileTree.isDir, Volume.isDir]
      rcases t.resolve_cases (h := h) path with ⟨hplace, _, hr⟩ | ⟨place, node, hplace, hnode, hr⟩
      · rw [hr, hplace]
        rfl
      · rw [hr, hplace, Option.bind_some]
        cases node <;> simp [volume, hnode, entryNames?]
    rw [← hdir]
    rfl
  has path hpath := by
    have hhas : t.has path = true := by
      rw [FileTree.has]
      rcases t.resolve_cases (h := h) path with ⟨hplace, _⟩ | ⟨_, _, _, _, hr⟩
      · simp [hplace] at hpath
      · rw [hr]
        rfl
    rw [← hhas]
    rfl
  hasNot := rfl
  names path names hnames := by
    have hnames' : t.names path = names := by
      rw [FileTree.names]
      rcases t.resolve_cases (h := h) path with ⟨hplace, _⟩ | ⟨place, node, hplace, hnode, hr⟩
      · simp [hplace] at hnames
      · rw [hplace, Option.bind_some] at hnames
        rw [hr]
        cases node <;> simp_all [volume, entryNames?]
    exact ⟨names, .refl _, by rw [← hnames']; rfl⟩

end FileTree

end Wiring
