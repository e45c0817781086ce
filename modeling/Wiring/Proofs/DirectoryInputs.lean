import Wiring.Proofs.InputOrder
import Wiring.Proofs.Volumes
import Wiring.Run.Source

/-!
# Directories as inputs

A directory is searched by a pattern that its path is a part of. Where no character of the path stands for others,
the search goes to the directory step by step and finds the batches in it (`Disk.run_search_literals`,
`Disk.run_search_json`), so that the paths of some inputs are those that are wanted (`batchPaths_finds`). Where one
does, the batches may be those of another directory.
-/

namespace Wiring

open Wiring.Path

/-! ## Patterns -/

namespace Glyph

/-- A character that stands for others in a pattern. -/
def isActive (c : Char) : Bool := c == '*' || c == '?' || c == '['

theorem inactive_of_any {s : List Char} (h : s.any isActive = false) : ∀ c ∈ s, isActive c = false :=
  fun c hc => eq_false_of_ne_true (List.any_eq_false.1 h c hc)

theorem readAll_of_inactive {s : List Char} (h : ∀ c ∈ s, isActive c = false) :
    readAll s = some (s.map .char) := by
  induction s with
  | nil => rw [readAll]; rfl
  | cons c cs ih =>
      have hc := h c List.mem_cons_self
      simp only [isActive, Bool.or_eq_false_iff, beq_eq_false_iff_ne] at hc
      obtain ⟨⟨hstar, hany⟩, hopen⟩ := hc
      rw [readAll, ih fun d hd => h d (List.mem_cons_of_mem c hd)]
      · rfl
      · exact fun _ hc _ => hstar hc
      · exact hstar
      · exact hany
      · exact hopen

theorem literal?_map_char (s : List Char) : literal? (s.map .char) = some s := by
  induction s with
  | nil => rfl
  | cons c cs ih => rw [List.map_cons, literal?, ih]; rfl

theorem matchAll_map_char {s cs : List Char} : matchAll (s.map .char) cs = true ↔ cs = s := by
  induction s generalizing cs with
  | nil => cases cs <;> simp [matchAll]
  | cons c s ih =>
      cases cs with
      | nil => simp [matchAll]
      | cons d ds =>
          rw [List.map_cons, matchAll, Bool.and_eq_true, beq_iff_eq, ih, List.cons_eq_cons, eq_comm]

theorem matchAll_text {gs : List Glyph} {cs : List Char} :
    matchAll (.text :: gs) cs = true ↔ ∃ r, r <:+ cs ∧ matchAll gs r = true := by
  induction cs with
  | nil => simp [matchAll]
  | cons c cs ih =>
      rw [matchAll, Bool.or_eq_true, ih]
      constructor
      · rintro (h | ⟨r, hr, h⟩)
        · exact ⟨c :: cs, List.suffix_rfl, h⟩
        · exact ⟨r, hr.trans (List.suffix_cons c cs), h⟩
      · rintro ⟨r, hr, h⟩
        rcases List.suffix_cons_iff.1 hr with rfl | hr
        · exact Or.inl h
        · exact Or.inr ⟨r, hr, h⟩

end Glyph

/-- Whether a name ends as those of batches do. -/
def Path.isJson (name : String) : Bool := ".json".toList.isSuffixOf name.toList

namespace NamePattern

/-- The pattern of a single name. -/
def literal (s : List Char) : NamePattern := .name (s.map .char)

/-- The pattern of the names of batches. -/
def json : NamePattern := .name (.text :: ".json".toList.map .char)

theorem accepts_json (name : String) : json.accepts name = isJson name := by
  rw [Bool.eq_iff_iff, json, accepts, Glyph.matchAll_text, isJson, List.isSuffixOf_iff_suffix]
  simp only [Glyph.matchAll_map_char, exists_eq_right]

theorem ofChars?_of_inactive {s : List Char} (h : ∀ c ∈ s, Glyph.isActive c = false) :
    ofChars? s = some (literal s) := by
  have hne : s ≠ ['*', '*'] := by
    rintro rfl
    exact absurd (h '*' List.mem_cons_self) (by decide)
  rw [ofChars?, if_neg hne, Glyph.readAll_of_inactive h]
  rfl

theorem ofChars?_json : ofChars? "*.json".toList = some json := by
  have hread : Glyph.readAll ".json".toList = some (".json".toList.map .char) :=
    Glyph.readAll_of_inactive (Glyph.inactive_of_any (by decide))
  have htext : "*.json".toList = '*' :: ".json".toList := by decide
  rw [ofChars?, if_neg (by decide), htext, Glyph.readAll, hread]
  · rfl
  · intro tail htail
    cases htail

theorem mapM_ofChars? {ss : List (List Char)} (h : ∀ s ∈ ss, ∀ c ∈ s, Glyph.isActive c = false) :
    (ss ++ ["*.json".toList]).mapM ofChars? = some (ss.map literal ++ [json]) := by
  induction ss with
  | nil => rw [List.nil_append, List.mapM_cons, ofChars?_json]; rfl
  | cons s ss ih =>
      rw [List.cons_append, List.mapM_cons, ofChars?_of_inactive (h s List.mem_cons_self),
        ih fun r hr => h r (List.mem_cons_of_mem s hr)]
      rfl

end NamePattern

/-! ## Dots in front -/

namespace Path

/-- Some steps are dots, and then comes an empty one. -/
def stallsIn : List (List Char) → Bool
  | ['.'] :: ss => stallsIn ss
  | [] :: _ => true
  | _ => false

/-- A path starts with dots and then has a doubled slash. -/
def stallsAt : List Char → Bool
  | '.' :: '/' :: cs => cs.head? == some '/' || stallsAt cs
  | _ => false

theorem isAbsolute_of_stallsAt {path : String} (h : stallsAt path.toList = true) :
    isAbsolute path = false := by
  refine eq_false_of_ne_true fun habsolute => ?_
  rw [isAbsolute_iff.1 habsolute] at h
  simp [stallsAt] at h

theorem stallsIn_of_ne {s : List Char} (hs : s ≠ []) (hdot : s ≠ ['.']) (ss : List (List Char)) :
    stallsIn (s :: ss) = false := by
  unfold stallsIn
  split <;> simp_all

theorem stallsIn_append {ss : List (List Char)} {s : List Char} (hs : s ≠ []) (hdot : s ≠ ['.']) :
    stallsIn (ss ++ [s]) = stallsIn ss := by
  fun_induction stallsIn ss with
  | case1 ss ih => exact ih
  | case2 ss => rfl
  | case3 ss hdots hempty =>
      cases ss with
      | nil => exact stallsIn_of_ne hs hdot []
      | cons r rs =>
          refine stallsIn_of_ne (fun hr => hempty rs ?_) (fun hr => hdots rs ?_) _ <;> rw [hr]

/-- A text with anything but a dot or a slash in front has a first step that is neither. -/
theorem stallsIn_split_of_ne {c : Char} {cs : List Char} (hc : c ≠ '/')
    (hform : ∀ ds, c :: cs ≠ '.' :: '/' :: ds) : stallsIn (split (c :: cs)) = false := by
  obtain ⟨r, rs, hr, hsplit⟩ := split_cons_of_ne hc cs
  rw [hsplit]
  by_cases hdot : c :: r = ['.']
  · obtain ⟨rfl, rfl⟩ := List.cons.inj hdot
    cases cs with
    | nil =>
        cases hr
        rfl
    | cons d ds =>
        have hd : d ≠ '/' := fun hd => hform ds (by rw [hd])
        obtain ⟨_, _, _, hsplit'⟩ := split_cons_of_ne hd ds
        rw [hsplit'] at hr
        cases hr
  · exact stallsIn_of_ne (List.cons_ne_nil c r) hdot rs

/-- A path that is continued by a step stalls just if it has a doubled slash after dots in front. -/
theorem stallsIn_split {cs s : List Char} (hcs : cs.head? ≠ some '/') (hs : s ≠ []) (hdot : s ≠ ['.'])
    (hslash : '/' ∉ s) :
    stallsIn (split (cs ++ if cs.getLast?.all (· == '/') then s else '/' :: s)) = stallsAt cs := by
  fun_induction stallsAt cs with
  | case1 cs ih =>
      have hlast : ('.' :: '/' :: cs).getLast?.all (· == '/') = cs.getLast?.all (· == '/') := by
        cases cs <;> rfl
      have hsplit := split_append_slash ['.'] (cs ++ if cs.getLast?.all (· == '/') then s else '/' :: s)
      have hdots : split ['.'] = [['.']] := rfl
      rw [hlast]
      refine (congrArg stallsIn hsplit).trans ?_
      rw [hdots, List.singleton_append, stallsIn]
      by_cases hhead : cs.head? = some '/'
      · obtain ⟨cs', rfl⟩ := List.head?_eq_some_iff.1 hhead
        simp [split, stallsIn]
      · rw [ih hhead, beq_eq_false_iff_ne.2 hhead, Bool.false_or]
  | case2 cs hform =>
      rcases cs with _ | ⟨c, _ | ⟨d, cs⟩⟩
      · have hall : ([] : List Char).getLast?.all (· == '/') = true := rfl
        rw [if_pos hall, List.nil_append, split_of_not_mem hslash, stallsIn_of_ne hs hdot]
      · have hc : c ≠ '/' := fun hc => hcs (by rw [hc]; rfl)
        by_cases hlone : c = '.'
        · -- The only slash after the dot is that in front of the step.
          subst hlone
          have hsplit := split_append_slash ['.'] s
          rw [split_of_not_mem hslash] at hsplit
          exact (congrArg stallsIn hsplit).trans (stallsIn_of_ne hs hdot [])
        · exact stallsIn_split_of_ne hc fun ds heq => hlone (List.cons.inj heq).1
      · have hc : c ≠ '/' := fun hc => hcs (by rw [hc]; rfl)
        refine stallsIn_split_of_ne hc fun ds heq => ?_
        obtain ⟨rfl, htail⟩ := List.cons.inj heq
        obtain ⟨rfl, _⟩ := List.cons.inj htail
        exact hform cs rfl

end Path

/-! ## Searching -/

theorem run_bind_eq {σ α β : Type} {x : StateM σ α} {f : α → StateM σ β} {t t' : σ} {a : α}
    (h : x.run t = (a, t')) : (x >>= f).run t = (f a).run t' := by
  rw [StateT.run_bind, h]
  rfl

theorem run_bind_ok {σ ε α β : Type} {x : ExceptT ε (StateM σ) α} {f : α → ExceptT ε (StateM σ) β}
    {t t' : σ} {a : α} (h : x.run.run t = (.ok a, t')) :
    (x >>= f).run.run t = (f a).run.run t' := by
  rw [ExceptT.run_bind, run_bind_eq h]

theorem run_liftM {σ ε α : Type} {x : StateM σ α} {t t' : σ} {a : α} (h : x.run t = (a, t')) :
    (liftM x : ExceptT ε (StateM σ) α).run.run t = (.ok a, t') := by
  have hrun : (liftM x : ExceptT ε (StateM σ) α).run = x >>= fun a => pure (Except.ok a) := by
    rw [← map_eq_pure_bind]
    rfl
  rw [hrun, run_bind_eq h]
  rfl

namespace Disk

variable {σ Place : Type} {d : Disk (StateM σ)} {t : σ} {v : Volume Place} {place place' : Place}
  {dir : String} {s : List Char} {ss : List (List Char)}

theorem run_isDir (hd : d.Shows t v) (hplace : v.at? dir = some place) (hnames : (v.names? place).isSome) :
    (d.isDir dir).run t = (true, t) := by
  rw [hd.isDir, Volume.isDir, hplace, Option.bind_some, hnames]

/-- A step that stands for itself is taken. -/
theorem run_search_literal (hd : d.Shows t v) (hplace : v.at? dir = some place) (hs : '/' ∉ s)
    (hne : components dir = [.here] → s ≠ []) (hstep : v.step? place s = some place')
    (ps : List NamePattern) :
    (d.search (.literal s :: ps) dir).run t = (d.search ps (entryPath dir (.ofList s))).run t := by
  have hat : (v.at? (entryPath dir (.ofList s))).isSome := by
    rw [Volume.at?_entryPath hplace hs hne, hstep, Option.isSome_some]
  rw [NamePattern.literal, search]
  simp only [Glyph.literal?_map_char]
  split
  · rw [run_bind_eq (run_isDir hd hplace (Volume.isSome_of_step? hstep)), if_pos rfl]
  · rw [run_bind_eq (hd.has _ hat), if_pos rfl]

/-- An empty step from the working directory leads nowhere. -/
theorem run_search_stalled (hd : d.Shows t v) (hdir : components dir = [.here])
    (ps : List NamePattern) : (d.search (.literal [] :: ps) dir).run t = ([], t) := by
  have hnext : entryPath dir (.ofList []) = "" := by rw [entryPath, if_pos hdir, String.ofList_nil]
  rw [NamePattern.literal, search]
  simp only [Glyph.literal?_map_char, hnext]
  rw [if_neg (by decide), run_bind_eq hd.hasNot]
  rfl

/-- Nothing is found where the dots in front are followed by an empty step. -/
theorem run_search_stalls (hd : d.Shows t v) (hplace : v.at? dir = some place)
    (hnames : (v.names? place).isSome) (hdir : components dir = [.here]) (hss : stallsIn ss = true)
    (ps : List NamePattern) : (d.search (ss.map .literal ++ ps) dir).run t = ([], t) := by
  fun_induction stallsIn ss generalizing dir with
  | case1 ss ih =>
      have hslash : '/' ∉ ['.'] := by decide
      have hne : components dir = [.here] → ['.'] ≠ [] := fun _ => by simp
      have hstay := Volume.step?_idle (v := v) (Or.inr rfl) hnames
      have hat := Volume.at?_entryPath hplace hslash hne
      have hnext : components (entryPath dir (.ofList ['.'])) = [.here] := by
        rw [entryPath, if_pos hdir]
        decide
      rw [List.map_cons, List.cons_append, run_search_literal hd hplace hslash hne hstay]
      exact ih (hat.trans hstay) hnext hss
  | case2 ss => exact run_search_stalled hd hdir _
  | case3 ss => cases hss

/-- Steps that stand for themselves are taken one after another. -/
theorem run_search_literals (hd : d.Shows t v) (hplace : v.at? dir = some place)
    (hss : ∀ s ∈ ss, '/' ∉ s) (hstalls : components dir = [.here] → stallsIn ss = false)
    (hfollow : v.follow? place ss = some place') :
    ∃ dir', v.at? dir' = some place' ∧
      undotted dir' = undotted dir ++ ss.filterMap (component? false) ∧
      ∀ ps, (d.search (ss.map .literal ++ ps) dir).run t = (d.search ps dir').run t := by
  induction ss generalizing dir place with
  | nil =>
      cases hfollow
      exact ⟨dir, hplace, (List.append_nil _).symm, fun _ => rfl⟩
  | cons s ss ih =>
      obtain ⟨next, hnext, hrest⟩ := Option.bind_eq_some_iff.1 hfollow
      have hdir := Volume.ne_empty_of_at? hplace
      have hs := hss s List.mem_cons_self
      have hne : components dir = [.here] → s ≠ [] := by
        rintro hhere rfl
        exact absurd (hstalls hhere) (by simp [stallsIn])
      have hat : v.at? (entryPath dir (.ofList s)) = some next := by
        rw [Volume.at?_entryPath hplace hs hne, hnext]
      have hstalls' : components (entryPath dir (.ofList s)) = [.here] → stallsIn ss = false := by
        intro hhere
        -- Only a dot stays in the working directory.
        by_cases hdot : components dir = [.here] ∧ s = ['.']
        · obtain ⟨hdir', rfl⟩ := hdot
          exact hstalls hdir'
        · exact absurd hhere (components_entryPath_ne hdir hs fun h hs => hdot ⟨h, hs⟩)
      obtain ⟨dir', hat', hundotted, hrun⟩ :=
        ih hat (fun r hr => hss r (List.mem_cons_of_mem s hr)) hstalls' hrest
      refine ⟨dir', hat', ?_, fun ps => ?_⟩
      · rw [hundotted, undotted_entryPath hdir hs, List.append_assoc]
        cases hs' : component? false s <;> simp [hs']
      · rw [List.map_cons, List.cons_append, run_search_literal hd hplace hs hne hnext, hrun]

theorem filter_entryPath (hdir : dir ≠ "") {names : List String} (hnames : ∀ name ∈ names, IsName name) :
    (names.map (entryPath dir)).filter (named .json) =
      (names.filter isJson).map (entryPath dir) := by
  rw [List.filter_map]
  refine congrArg _ (List.filter_congr fun name hname => ?_)
  rw [Function.comp_apply, named, fileName?_entryPath hdir (hnames name hname), Option.any_some,
    NamePattern.accepts_json]

/-- In a directory, the paths of the names of batches are found. -/
theorem run_search_json (hd : d.Shows t v) (hplace : v.at? dir = some place) {names : List String}
    (hnames : v.names? place = some names) :
    ∃ l : List String, l.Perm (names.filter isJson) ∧
      (d.search [.json] dir).run t = (l.map (entryPath dir), t) := by
  have hdir := run_isDir hd hplace (by rw [hnames, Option.isSome_some])
  obtain ⟨l, hl, hrun⟩ := hd.names dir names (by rw [hplace, Option.bind_some, hnames])
  have hentries : (d.entries dir).run t = (l.map (entryPath dir), t) := by
    rw [entries, run_bind_eq hdir, if_pos rfl, run_bind_eq hrun]
    rfl
  have hfound := filter_entryPath (Volume.ne_empty_of_at? hplace) fun name hname =>
    v.isName place names hnames name (hl.mem_iff.1 hname)
  have hfollowed : d.search [] = fun path => pure [path] := funext fun path => by rw [search]
  have hdots : NamePattern.dotNames (.text :: ".json".toList.map .char) = [] := rfl
  refine ⟨l.filter isJson, hl.filter _, ?_⟩
  rw [NamePattern.json, search]
  simp only [Glyph.literal?]
  rw [run_bind_eq hentries, run_bind_eq hdir, if_pos rfl, hfollowed, hdots, List.map_nil,
    List.append_nil, ← NamePattern.json, hfound, List.mapM_pure, pure_bind, ← List.flatMap_def,
    List.flatMap_singleton']
  rfl

theorem batchPattern_eq (dir : String) : batchPattern dir = join dir (.ofList "*.json".toList) := by
  rw [batchPattern, String.ofList_toList]

theorem origin_batchPattern (hdir : dir ≠ "") :
    NamePattern.origin (batchPattern dir) = if isAbsolute dir then "/" else "." := by
  have hjson : '/' ∉ "*.json".toList := by decide
  obtain ⟨habsolute, _⟩ := relative_eq_of_append hdir (toList_join dir hjson)
  rw [NamePattern.origin, batchPattern_eq, habsolute]

/-- The pattern of a directory without active characters takes the steps of the directory. -/
theorem steps?_batchPattern (hdir : dir ≠ "") (h : ∀ c ∈ dir.toList, Glyph.isActive c = false) :
    ∃ ss, NamePattern.steps? (batchPattern dir) = some (ss.map .literal ++ [.json]) ∧
      (steps dir = ss ∨ steps dir = ss ++ [[]]) ∧ (∀ s ∈ ss, '/' ∉ s) ∧
      (isAbsolute dir = false → stallsIn ss = stallsAt dir.toList) := by
  have hjson : '/' ∉ "*.json".toList := by decide
  obtain ⟨ss, hjoin, hsteps⟩ := exists_steps_join hdir hjson
  obtain ⟨habsolute, hrelative⟩ := relative_eq_of_append hdir (toList_join dir hjson)
  have hss : ∀ s ∈ ss, s ∈ steps dir := by
    intro s hs
    rcases hsteps with hsteps | hsteps <;> rw [hsteps]
    · exact hs
    · exact List.mem_append_left _ hs
  have hpattern : steps (batchPattern dir) = ss ++ ["*.json".toList] := by rw [batchPattern_eq, hjoin]
  refine ⟨ss, ?_, hsteps, fun s hs => (mem_steps (hss s hs)).1, fun hrel => ?_⟩
  · have hsteps? : NamePattern.steps? (batchPattern dir) =
        (steps (batchPattern dir)).mapM NamePattern.ofChars? := rfl
    rw [hsteps?, hpattern]
    exact NamePattern.mapM_ofChars? fun s hs c hc => h c ((mem_steps (hss s hs)).2 c hc)
  · have hhead : dir.toList.head? ≠ some '/' := by simpa [isAbsolute] using hrel
    have hsplit := hjoin
    rw [steps, hrelative, relative_of_not_absolute hrel] at hsplit
    rw [← stallsIn_split hhead (by decide) (by decide) hjson, hsplit,
      stallsIn_append (by decide) (by decide)]

end Disk

/-! ## Inputs -/

/-- What is found for an input. In a directory it is the entries that are named as batches are, in the order of
their paths. -/
inductive Volume.Finds {Place : Type} (v : Volume Place) : String → List String → Prop
  | file {input : String} (h : v.isDir input = false) : Finds v input [input]
  | stalled {input : String} (h : v.isDir input = true) (hs : stallsAt input.toList = true) :
      Finds v input []
  | directory {input : String} {place : Place} {names found : List String} (pathTo : String → String)
      (hplace : v.at? input = some place) (hnames : v.names? place = some names)
      (hpathTo : ∀ name ∈ names, v.at? (pathTo name) = v.entry? place name ∧
        undotted (pathTo name) = undotted input ++ [.name name.toList])
      (hfound : found.Perm ((names.filter isJson).map pathTo))
      (hsorted : found.Pairwise fun p q => Path.le p q = true) :
      Finds v input found

namespace Disk

variable {σ Place : Type} {d : Disk (StateM σ)} {t : σ} {v : Volume Place} {place : Place}
  {input : String} {names : List String}

theorem run_inputPaths_file (hdir : (d.isDir input).run t = (false, t)) :
    (d.inputPaths input).run.run t = (.ok [input], t) := by
  rw [inputPaths, run_bind_ok (run_liftM hdir)]
  rfl

theorem run_inputPaths_directory (hdir : (d.isDir input).run t = (true, t)) {ps : List NamePattern}
    (hps : NamePattern.steps? (batchPattern input) = some ps) {found : List String} {t' : σ}
    (hfound : (d.search ps (NamePattern.origin (batchPattern input))).run t = (found, t')) :
    (d.inputPaths input).run.run t = (.ok (Path.sort found), t') := by
  rw [inputPaths, run_bind_ok (run_liftM hdir)]
  simp only [Bool.not_true, hps]
  rw [if_neg (by simp), run_bind_ok (run_liftM hfound)]
  rfl

/-- The paths of the entries of a directory, by a path that leads there. -/
theorem finds_of_at? (hplace : v.at? input = some place) (hnames : v.names? place = some names)
    {dir : String} (hdir : v.at? dir = some place) (hundotted : undotted dir = undotted input)
    {l : List String} (hl : l.Perm (names.filter isJson)) :
    v.Finds input (Path.sort (l.map (entryPath dir))) := by
  refine .directory (entryPath dir) hplace hnames (fun name hname => ?_) ?_ (pairwise_mergeSort id _)
  · have hisName := v.isName place names hnames name hname
    have hat := Volume.at?_entryPath hdir hisName.1 fun _ => hisName.ne_nil
    have hcomponents := undotted_entryPath (Volume.ne_empty_of_at? hdir) hisName.1
    rw [String.ofList_toList] at hat hcomponents
    rw [hat, Volume.step?_name hnames hisName, hcomponents, hisName.2, hundotted]
    exact ⟨rfl, rfl⟩
  · exact (List.mergeSort_perm _ _).trans (hl.map _)

/-- What comes of the search for the pattern of a directory. -/
theorem run_search_batchPattern (hd : d.Shows t v) (hplace : v.at? input = some place)
    (hnames : v.names? place = some names) (h : ∀ c ∈ input.toList, Glyph.isActive c = false) :
    ∃ (ps : List NamePattern) (found : List String),
      NamePattern.steps? (batchPattern input) = some ps ∧
      (d.search ps (NamePattern.origin (batchPattern input))).run t = (found, t) ∧
      (stallsAt input.toList = true ∧ found = [] ∨
        ∃ (dir : String) (l : List String), v.at? dir = some place ∧ undotted dir = undotted input ∧
          l.Perm (names.filter isJson) ∧ found = l.map (entryPath dir)) := by
  have hne := Volume.ne_empty_of_at? hplace
  obtain ⟨ss, hps, hsteps, hslash, hstallsIn⟩ := steps?_batchPattern hne h
  obtain ⟨first, hfirst, hdir, hfollow⟩ := Volume.exists_start_of_at? hplace
  have horigin := Volume.at?_origin hfirst hdir
  rw [origin_batchPattern hne]
  cases hstalls : stallsAt input.toList with
  | true =>
      have hrelative := isAbsolute_of_stallsAt hstalls
      rw [hrelative, if_neg (by simp)] at horigin ⊢
      exact ⟨_, [], hps, run_search_stalls hd horigin hdir (by decide)
        ((hstallsIn hrelative).trans hstalls) [.json], Or.inl ⟨rfl, rfl⟩⟩
  | false =>
      have hleaves : components (if isAbsolute input then "/" else ".") = [.here] →
          stallsIn ss = false := by
        cases habsolute : isAbsolute input with
        | true => exact fun hroot => absurd hroot (by decide)
        | false => exact fun _ => (hstallsIn habsolute).trans hstalls
      obtain ⟨dir, hat, hundotted, hsearch⟩ :=
        run_search_literals hd horigin hslash hleaves (Volume.follow?_trimmed hsteps hfollow)
      obtain ⟨l, hl, hjson⟩ := run_search_json hd hat hnames
      have hsame : undotted dir = undotted input := by
        rw [hundotted, undotted_eq input, filterMap_trimmed hsteps]
        split <;> rfl
      exact ⟨_, _, hps, (hsearch _).trans hjson, Or.inr ⟨dir, l, hat, hsame, hl, rfl⟩⟩

theorem run_inputPaths (hd : d.Shows t v)
    (h : v.isDir input = true → ∀ c ∈ input.toList, Glyph.isActive c = false) :
    ∃ found, v.Finds input found ∧ (d.inputPaths input).run.run t = (.ok found, t) := by
  have hisDir := hd.isDir input
  cases hinput : v.isDir input with
  | false =>
      rw [hinput] at hisDir
      exact ⟨_, .file hinput, run_inputPaths_file hisDir⟩
  | true =>
      rw [hinput] at hisDir
      obtain ⟨names, hnames⟩ := Option.isSome_iff_exists.1 hinput
      obtain ⟨place, hplace, hnames⟩ := Option.bind_eq_some_iff.1 hnames
      obtain ⟨ps, found, hps, hsearch, hfound⟩ := run_search_batchPattern hd hplace hnames (h hinput)
      refine ⟨Path.sort found, ?_, run_inputPaths_directory hisDir hps hsearch⟩
      rcases hfound with ⟨hstalls, rfl⟩ | ⟨dir, l, hat, hundotted, hl, rfl⟩
      · rw [Path.sort, List.mergeSort_nil]
        exact .stalled hinput hstalls
      · exact finds_of_at? hplace hnames hat hundotted hl

theorem run_mapM_inputPaths (hd : d.Shows t v) {inputs : List String}
    (h : ∀ input ∈ inputs, v.isDir input = true → ∀ c ∈ input.toList, Glyph.isActive c = false) :
    ∃ lists, List.Forall₂ v.Finds inputs lists ∧
      (inputs.mapM d.inputPaths).run.run t = (.ok lists, t) := by
  induction inputs with
  | nil => exact ⟨[], .nil, rfl⟩
  | cons input inputs ih =>
      obtain ⟨found, hfinds, hrun⟩ := run_inputPaths hd (h input List.mem_cons_self)
      obtain ⟨lists, hlists, hrest⟩ := ih fun i hi => h i (List.mem_cons_of_mem input hi)
      refine ⟨found :: lists, .cons hfinds hlists, ?_⟩
      rw [List.mapM_cons, run_bind_ok hrun, run_bind_ok hrest]
      rfl

end Disk

/-- As long as no character in the path of a directory stands for others, the paths of the batches of some inputs
are, one input after another, the input itself if it is no directory, and otherwise the paths of all that is in the
directory under a name that ends as those of batches do, in ascending order. Only a path that starts with dots and
then has a doubled slash is not followed, and nothing is found. It is those batches that are loaded. -/
theorem batchPaths_finds {σ Place : Type} {d : Disk (StateM σ)} {t : σ} {v : Volume Place}
    (hd : d.Shows t v) {inputs : List String}
    (h : ∀ input ∈ inputs, v.isDir input = true → ∀ c ∈ input.toList, Glyph.isActive c = false) :
    ∃ lists, List.Forall₂ v.Finds inputs lists ∧
      (d.batchPaths inputs).run.run t = (.ok lists.flatten, t) ∧
      (d.loadBatches inputs).run.run t = (lists.flatten.mapM d.loadBatch).run.run t := by
  obtain ⟨lists, hlists, hrun⟩ := Disk.run_mapM_inputPaths hd h
  have hpaths : (d.batchPaths inputs).run.run t = (.ok lists.flatten, t) := by
    rw [Disk.batchPaths, run_bind_ok hrun]
    rfl
  refine ⟨lists, hlists, hpaths, ?_⟩
  rw [Disk.loadBatches, run_bind_ok hpaths]

theorem batchPaths_finds_of_dotted_directory :
    let tree : FileTree := .dir
      [("one.json", .file "{}"),
        ("in", .dir [("b.json", .file "{}"), ("note.txt", .file ""), ("a.json", .file "{}")])]
    let inputs := ["one.json", "./in/"]
    ∃ h : tree.isNamed = true, FileTree.host.toDisk.Shows tree (tree.volume h) ∧
      (∀ input ∈ inputs, (tree.volume h).isDir input = true →
        ∀ c ∈ input.toList, Glyph.isActive c = false) ∧
      ∃ lists, List.Forall₂ (tree.volume h).Finds inputs lists ∧
        (FileTree.host.batchPaths inputs).run.run tree = (.ok lists.flatten, tree) ∧
        lists.flatten = ["one.json", "in/a.json", "in/b.json"] := by
  have hplain : ∀ input ∈ ["one.json", "./in/"], input.toList.any Glyph.isActive = false := by decide
  intro tree inputs
  have h : tree.isNamed = true := by decide +kernel
  have hshows := FileTree.shows_volume h
  have hinputs : ∀ input ∈ inputs, (tree.volume h).isDir input = true →
      ∀ c ∈ input.toList, Glyph.isActive c = false := fun input hinput _ =>
    Glyph.inactive_of_any (hplain input hinput)
  obtain ⟨lists, hlists, hrun, _⟩ := batchPaths_finds hshows hinputs
  refine ⟨h, hshows, hinputs, lists, hlists, hrun, ?_⟩
  have hisFile : tree.isDir "one.json" = false := by decide +kernel
  have hisDir : tree.isDir "./in/" = true := by decide +kernel
  have hfile : (FileTree.host.isDir "one.json").run tree = (false, tree) := congrArg (·, tree) hisFile
  have hdir : (FileTree.host.isDir "./in/").run tree = (true, tree) := congrArg (·, tree) hisDir
  have hps : NamePattern.steps? (Disk.batchPattern "./in/") =
      some [.literal ['.'], .literal ['i', 'n'], .json] := by decide +kernel
  have hsearch : ((FileTree.host.search [.literal ['.'], .literal ['i', 'n'], .json]
      (NamePattern.origin (Disk.batchPattern "./in/"))).run tree).1 = ["in/b.json", "in/a.json"] := by
    decide +kernel
  have hle : Path.le "in/b.json" "in/a.json" = false := by decide +kernel
  have hsorted : Path.sort ["in/b.json", "in/a.json"] = ["in/a.json", "in/b.json"] := by
    simp [Path.sort, List.mergeSort, hle]
  have hfound := Disk.run_inputPaths_directory hdir hps (Prod.ext hsearch rfl)
  rw [Disk.batchPaths, List.mapM_cons, bind_assoc, run_bind_ok (Disk.run_inputPaths_file hfile),
    List.mapM_cons, bind_assoc, bind_assoc, run_bind_ok hfound, hsorted] at hrun
  exact (Except.ok.inj (congrArg Prod.fst hrun)).symm

/-- The batches of another directory are found, and those of the directory itself are not. -/
theorem neighbour_is_found :
    let tree : FileTree := .dir
      [("c1", .dir [("a.json", .file "{}")]), ("c[1]", .dir [("b.json", .file "{}")])]
    tree.isDir "c[1]" = true ∧ tree.names "c[1]" = ["b.json"] ∧
      ((FileTree.host.batchPaths ["c[1]"]).run.run tree).1 = .ok ["c1/a.json"] := by
  intro tree
  have hisDir : tree.isDir "c[1]" = true := by decide +kernel
  have hdir : (FileTree.host.isDir "c[1]").run tree = (true, tree) := congrArg (·, tree) hisDir
  have hps : NamePattern.steps? (Disk.batchPattern "c[1]") =
      some [.name [.char 'c', .among [('1', '1')]], .json] := by decide +kernel
  have hsearch : ((FileTree.host.search [.name [.char 'c', .among [('1', '1')]], .json]
      (NamePattern.origin (Disk.batchPattern "c[1]"))).run tree).1 = ["c1/a.json"] := by
    decide +kernel
  have hrun := Disk.run_inputPaths_directory hdir hps (Prod.ext hsearch rfl)
  rw [Path.sort, List.mergeSort_singleton] at hrun
  refine ⟨hisDir, by decide +kernel, ?_⟩
  rw [Disk.batchPaths, List.mapM_cons, bind_assoc, run_bind_ok hrun]
  rfl

end Wiring
