/-
Walking paths in a tree without links. A walk goes through folders only, so what it finds depends on the
place its steps lead to by their names, and on whether all places on the way are folders.
-/
import ResourceClient.Files.Operations
import ResourceClient.Proofs.Files.Edit
import ResourceClient.Proofs.Files.Location

namespace ResourceClient.FileTree

variable {t t' : FileTree} {here front rest steps : List String} {name : String} {followLast : Bool} {links : Nat}

/-! ## Where steps lead -/

/-- Whether a step stands still. -/
def isIdleStep (name : String) : Bool :=
  name == "" || name == "."

/-- The place one step away. -/
def move (here : List String) (name : String) : List String :=
  if name = "" ∨ name = "." then here else if name = ".." then here.dropLast else here ++ [name]

/-- The place that steps lead to. -/
def follow (here steps : List String) : List String :=
  steps.foldl move here

/-- The place of a path by its names alone. -/
def location (path : String) : List String :=
  follow [] (FileTree.steps path)

/-- A step to an entry of a folder. -/
structure IsStep (name : String) : Prop where
  idle : ¬(name = "" ∨ name = ".")
  up : name ≠ ".."

theorem move_idle (h : isIdleStep name = true) : move here name = here := by
  unfold isIdleStep at h
  rw [Bool.or_eq_true, beq_iff_eq, beq_iff_eq] at h
  exact if_pos h

theorem IsStep.move_eq (h : IsStep name) (here : List String) : move here name = here ++ [name] := by
  unfold move
  rw [if_neg h.idle, if_neg h.up]

theorem follow_append (here a b : List String) : follow here (a ++ b) = follow (follow here a) b :=
  List.foldl_append

theorem follow_filter (here steps : List String) :
    follow here (steps.filter fun s => !isIdleStep s) = follow here steps := by
  induction steps generalizing here with
  | nil => rfl
  | cons name steps ih =>
    cases h : isIdleStep name
    · rw [List.filter_cons_of_pos (by simp [h])]
      exact ih _
    · rw [List.filter_cons_of_neg (by simp [h]), ih]
      show _ = follow (move here name) steps
      rw [move_idle h]

/-! ## Steps through folders -/

/-- Whether every step from a place leads to a folder. -/
def Open (t : FileTree) (here : List String) : List String → Prop
  | [] => True
  | name :: rest => t.IsFolderAt (move here name) ∧ Open t (move here name) rest

theorem open_append : t.Open here (front ++ rest) ↔ t.Open here front ∧ t.Open (follow here front) rest := by
  induction front generalizing here with
  | nil =>
    show t.Open here rest ↔ True ∧ t.Open here rest
    rw [true_and]
  | cons name front ih =>
    show _ ∧ t.Open _ (front ++ rest) ↔ (_ ∧ _) ∧ _
    rw [ih, and_assoc]
    rfl

theorem Open.isFolderAt (h : t.Open here steps) (hh : t.IsFolderAt here) : t.IsFolderAt (follow here steps) := by
  induction steps generalizing here with
  | nil => exact hh
  | cons name steps ih => exact ih h.2 h.1

theorem Open.mono (h : t.Open here steps) (hk : ∀ place, t.IsFolderAt place → t'.IsFolderAt place) :
    t'.Open here steps := by
  induction steps generalizing here with
  | nil => trivial
  | cons name steps ih => exact ⟨hk _ h.1, ih h.2⟩

/-- Steps that stand still do not count. -/
theorem open_filter (hh : t.IsFolderAt here) :
    t.Open here (steps.filter fun s => !isIdleStep s) ↔ t.Open here steps := by
  induction steps generalizing here with
  | nil => rfl
  | cons name steps ih =>
    cases h : isIdleStep name
    · rw [List.filter_cons_of_pos (by simp [h])]
      exact and_congr_right fun hf => ih hf
    · rw [List.filter_cons_of_neg (by simp [h]), ih hh]
      show _ ↔ t.IsFolderAt (move here name) ∧ t.Open (move here name) steps
      rw [move_idle h]
      exact ⟨fun ho => ⟨hh, ho⟩, fun ho => ho.2⟩

/-! ## The walk -/

theorem walk_idle (h : name = "" ∨ name = ".") :
    walk t followLast links here (name :: rest) = walk t followLast links here rest := by
  rw [walk, if_pos h]

theorem walk_up : walk t followLast links here (".." :: rest) = walk t followLast links here.dropLast rest := by
  rw [walk, if_neg (by decide), if_pos rfl]

/-- A walk goes on through folders. -/
theorem walk_folder (h : t.IsFolderAt (move here name)) :
    walk t followLast links here (name :: rest) = walk t followLast links (move here name) rest := by
  obtain ⟨entries, h⟩ := h
  by_cases hi : name = "" ∨ name = "."
  · rw [walk_idle hi, move, if_pos hi]
  · by_cases hu : name = ".."
    · rw [hu, walk_up]
      rfl
    · rw [IsStep.move_eq ⟨hi, hu⟩] at *
      rw [walk, if_neg hi, if_neg hu, h]

theorem walk_open (h : t.Open here front) :
    walk t followLast links here (front ++ rest) = walk t followLast links (follow here front) rest := by
  induction front generalizing here with
  | nil => rfl
  | cons name front ih =>
    rw [List.cons_append, walk_folder h.1, ih h.2]
    rfl

/-- What a name leads to in a folder of a tree without links. -/
def entryPlace (t : FileTree) (place : List String) : Place :=
  match t.at? place with
  | none => .free place false
  | some u => .taken place u

theorem walk_last (ht : t.LinkFree) (hn : IsStep name) :
    walk t followLast links here [name] = .ok (entryPlace t (here ++ [name])) := by
  rw [walk, if_neg hn.idle, if_neg hn.up]
  unfold entryPlace
  cases h : t.at? (here ++ [name]) with
  | none => rfl
  | some u =>
    cases u with
    | file _ => rfl
    | link target => exact absurd h (ht _ target)
    | folder entries =>
      simp only
      rw [walk, h]

/-- `Reaches t here steps p`: the steps from a place lead to `p`, the last one from a folder. -/
inductive Reaches (t : FileTree) (here : List String) : List String → Place → Prop
  | folder {steps : List String} {entries : List (String × FileTree)} (through : t.Open here steps)
    (found : t.at? (follow here steps) = some (.folder entries)) :
    Reaches t here steps (.taken (follow here steps) (.folder entries))
  | file {front : List String} {name : String} {content : ByteArray} (through : t.Open here front)
    (step : IsStep name) (found : t.at? (follow here front ++ [name]) = some (.file content)) :
    Reaches t here (front ++ [name]) (.taken (follow here front ++ [name]) (.file content))
  | free {front blanks : List String} {name : String} (through : t.Open here front) (step : IsStep name)
    (blank : ∀ s ∈ blanks, s = "") (found : t.at? (follow here front ++ [name]) = none) :
    Reaches t here (front ++ name :: blanks) (.free (follow here front ++ [name]) (!blanks.isEmpty))

theorem Reaches.cons {p : Place} (h : t.IsFolderAt (move here name)) (hr : Reaches t (move here name) steps p) :
    Reaches t here (name :: steps) p := by
  cases hr with
  | folder through found => exact .folder ⟨h, through⟩ found
  | @file front last _ through step found =>
    have hr : Reaches t here ((name :: front) ++ [last]) _ := .file ⟨h, through⟩ step found
    exact hr
  | @free front blanks last through step blank found =>
    have hr : Reaches t here ((name :: front) ++ last :: blanks) _ := .free ⟨h, through⟩ step blank found
    exact hr

theorem walk_reaches (ht : t.LinkFree) (hh : t.IsFolderAt here) {p : Place}
    (h : walk t followLast links here steps = .ok p) : Reaches t here steps p := by
  induction steps generalizing here with
  | nil =>
    obtain ⟨entries, hh⟩ := hh
    rw [walk, hh] at h
    cases h
    exact .folder trivial hh
  | cons name rest ih =>
    by_cases hf : t.IsFolderAt (move here name)
    · rw [walk_folder hf] at h
      exact .cons hf (ih hf h)
    · have hidle : ¬(name = "" ∨ name = ".") := fun hi => hf (by rw [move, if_pos hi]; exact hh)
      have hup : name ≠ ".." := by
        rintro rfl
        exact hf hh.dropLast
      rw [IsStep.move_eq ⟨hidle, hup⟩] at hf
      rw [walk, if_neg hidle, if_neg hup] at h
      cases hat : t.at? (here ++ [name]) with
      | none =>
        rw [hat] at h
        simp only at h
        split at h
        · rename_i hall
          cases h
          have hblank : ∀ s ∈ rest, s = "" := fun s hs => by simpa using List.all_eq_true.1 hall s hs
          have hr : Reaches t here ([] ++ name :: rest) _ := .free trivial ⟨hidle, hup⟩ hblank hat
          exact hr
        · cases h
      | some u =>
        rw [hat] at h
        cases u with
        | file content =>
          simp only at h
          split at h
          · rename_i he
            cases h
            rw [List.isEmpty_iff.1 he]
            have hr : Reaches t here ([] ++ [name]) _ := .file trivial ⟨hidle, hup⟩ hat
            exact hr
          · cases h
        | link target => exact absurd hat (ht _ target)
        | folder entries => exact absurd ⟨entries, hat⟩ hf

/-! ## Places of paths -/

theorem steps_eq (path : String) : FileTree.steps path = (Path.segments path).map String.ofList :=
  rfl

theorem isIdleStep_ofList (s : List Char) : isIdleStep (String.ofList s) = Path.isIdle s := by
  have h1 : (String.ofList s == "") = (s == []) := by
    rw [Bool.eq_iff_iff, beq_iff_eq, beq_iff_eq]
    exact ⟨fun h => by simpa using congrArg String.toList h, fun h => by rw [h]⟩
  have h2 : (String.ofList s == ".") = (s == ['.']) := by
    rw [Bool.eq_iff_iff, beq_iff_eq, beq_iff_eq]
    exact ⟨fun h => by simpa using congrArg String.toList h, fun h => by rw [h]⟩
  unfold isIdleStep Path.isIdle
  rw [h1, h2]

theorem filter_steps (path : String) : (FileTree.steps path).filter (fun s => !isIdleStep s) = Path.names path := by
  unfold Path.names
  rw [steps_eq, List.filter_map]
  congr 1
  exact List.filter_congr fun s _ => by rw [Function.comp_apply, isIdleStep_ofList]

theorem location_eq (path : String) : location path = follow [] (Path.names path) := by
  rw [← filter_steps, follow_filter]
  rfl

/-- A path that never goes up leads to the place of its names. -/
theorem location_of_no_up {path : String} (h : ".." ∉ Path.names path) : location path = Path.names path := by
  have hsteps : ∀ {steps here : List String}, ".." ∉ steps → (∀ s ∈ steps, isIdleStep s = false) →
      follow here steps = here ++ steps := by
    intro steps
    induction steps with
    | nil => exact fun _ _ => (List.append_nil _).symm
    | cons name steps ih =>
      intro here hup hidle
      have hstep : IsStep name := by
        refine ⟨fun hi => ?_, fun he => hup (he ▸ List.mem_cons_self)⟩
        have := hidle name List.mem_cons_self
        unfold isIdleStep at this
        rcases hi with rfl | rfl <;> cases this
      show follow (move here name) steps = _
      rw [hstep.move_eq, ih (fun hm => hup (List.mem_cons_of_mem _ hm)) (fun s hs => hidle s (List.mem_cons_of_mem _ hs)),
        List.append_assoc]
      rfl
  rw [location_eq, hsteps h, List.nil_append]
  intro s hs
  rw [← filter_steps] at hs
  simpa using (List.mem_filter.1 hs).2

theorem open_steps_iff (hr : t.IsFolderAt []) (path : String) :
    t.Open [] (FileTree.steps path) ↔ t.Open [] (Path.names path) := by
  rw [← filter_steps, open_filter hr]

theorem Open.isFolderAt_location {path : String} (ho : t.Open [] (Path.names path)) (hr : t.IsFolderAt []) :
    t.IsFolderAt (location path) := by
  rw [location_eq]
  exact ho.isFolderAt hr

theorem isStep_of_isName {n : String} (h : Path.IsName n) : IsStep n := by
  refine ⟨?_, h.up⟩
  have hidle := isIdleStep_ofList n.toList
  rw [String.ofList_toList, h.idle] at hidle
  unfold isIdleStep at hidle
  simpa using hidle

/-- A path that goes on from a folder by a name leads to its entry. -/
theorem location_of_names {path folder n : String} (hn : Path.IsName n)
    (h : Path.names path = Path.names folder ++ [n]) : location path = location folder ++ [n] := by
  rw [location_eq, h, follow_append, ← location_eq]
  exact (isStep_of_isName hn).move_eq _

section

variable {path folder n : String} (h : Path.EndsIn path folder n)

include h

/-- The steps of a path that ends in a name. -/
theorem steps_of_endsIn : ∃ front, FileTree.steps path = front ++ [n] ∧
    front.filter (fun s => !isIdleStep s) = Path.names folder := by
  obtain ⟨front, hf, hn⟩ := h
  refine ⟨front.map String.ofList, ?_, ?_⟩
  · rw [steps_eq, hf, List.map_append, List.map_singleton, String.ofList_toList]
  · rw [← hn, List.filter_map]
    congr 1
    exact List.filter_congr fun s _ => by rw [Function.comp_apply, isIdleStep_ofList]

theorem ne_empty_of_endsIn (hn : Path.IsName n) : path ≠ "" := by
  rintro rfl
  obtain ⟨front, hf, -⟩ := steps_of_endsIn h
  have hlast := congrArg List.getLast? hf
  rw [List.getLast?_concat] at hlast
  exact hn.ne_empty (Option.some.inj hlast).symm

/-- A path that ends in a name, behind an open folder, leads to the entry of the folder. -/
theorem place_of_endsIn (ht : t.LinkFree) (hr : t.IsFolderAt []) (hn : Path.IsName n)
    (ho : t.Open [] (Path.names folder)) (followLast : Bool) :
    t.place followLast path = .ok (entryPlace t (location folder ++ [n])) := by
  obtain ⟨front, hf, hnames⟩ := steps_of_endsIn h
  rw [← hnames, open_filter hr] at ho
  have hloc : location folder = follow [] front := by rw [location_eq, ← hnames, follow_filter]
  rw [place, if_neg (ne_empty_of_endsIn h hn), hf, walk_open ho, hloc]
  exact walk_last ht (isStep_of_isName hn)

end

theorem location_join {n : String} (h : Path.IsName n) (folder : String) :
    location (Path.join folder n) = location folder ++ [n] :=
  location_of_names h ((Path.endsIn_join h folder).names_eq h)

/-- A name joined to an open folder leads to its entry. -/
theorem place_join (ht : t.LinkFree) (hr : t.IsFolderAt []) {folder n : String} (hn : Path.IsName n)
    (ho : t.Open [] (Path.names folder)) (followLast : Bool) :
    t.place followLast (Path.join folder n) = .ok (entryPlace t (location folder ++ [n])) :=
  place_of_endsIn (Path.endsIn_join hn folder) ht hr hn ho followLast

/-- An open path leads to the folder there. -/
theorem place_of_open (hr : t.IsFolderAt []) {path : String} (hp : path ≠ "") (ho : t.Open [] (Path.names path))
    {entries : List (String × FileTree)} (hat : t.at? (location path) = some (.folder entries)) (followLast : Bool) :
    t.place followLast path = .ok (.taken (location path) (.folder entries)) := by
  rw [← open_steps_iff hr] at ho
  have hwalk : t.walk followLast linkLimit [] (FileTree.steps path ++ []) = _ := walk_open ho
  rw [List.append_nil] at hwalk
  rw [place, if_neg hp, hwalk, walk, ← location, hat]

theorem place_reaches (ht : t.LinkFree) (hr : t.IsFolderAt []) {path : String} {p : Place}
    (h : t.place followLast path = .ok p) : Reaches t [] (FileTree.steps path) p := by
  unfold place at h
  split at h
  · cases h
  · exact walk_reaches ht hr h

end ResourceClient.FileTree
