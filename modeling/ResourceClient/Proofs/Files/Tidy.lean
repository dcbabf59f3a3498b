/-
Tidy trees: the entries of each folder stand in the order of their names, and have names that a path can lead to. All
operations keep a tree tidy, links or not, so that a tree built by them is. Two tidy trees are the same when at each
place they have the same file or link, or both a folder.
-/
import ResourceClient.Proofs.Files.Walk
import Mathlib.Data.List.Sort

namespace ResourceClient.FileTree

/-- A tree whose folders have their entries in the order of their names, each name once and fit for a path. -/
inductive Tidy : FileTree → Prop
  | file (content : ByteArray) : Tidy (.file content)
  | link (target : String) : Tidy (.link target)
  | folder {entries : List (String × FileTree)} (ordered : entries.Pairwise fun e e' => e.1 < e'.1)
    (named : ∀ e ∈ entries, Path.IsName e.1) (inside : ∀ e ∈ entries, Tidy e.2) : Tidy (.folder entries)

variable {t t' u : FileTree} {place rest here : List String} {name : String} {entries entries' : List (String × FileTree)}

theorem tidy_empty : empty.Tidy :=
  .folder .nil nofun nofun

/-- A folder is tidy when its names are in order and fit, and what lies in it is tidy. -/
theorem tidy_folder_of_names (names : List String) (hnames : entries.map (·.1) = names)
    (h : names.Pairwise (· < ·) ∧ ∀ n ∈ names, Path.IsName n) (inside : ∀ e ∈ entries, e.2.Tidy) :
    (folder entries).Tidy := by
  subst hnames
  exact .folder (List.pairwise_map.1 h.1) (fun e he => h.2 _ (List.mem_map_of_mem he)) inside

instance : DecidablePred Path.IsName := fun n =>
  decidable_of_iff ('/' ∉ n.toList ∧ Path.isIdle n.toList = false ∧ n ≠ "..")
    ⟨fun h => ⟨h.1, h.2.1, h.2.2⟩, fun h => ⟨h.slash, h.idle, h.up⟩⟩

/-! ## Entries -/

theorem lookup_eq_some_of_mem (h : entries.Pairwise fun e e' => e.1 < e'.1) (hm : (name, u) ∈ entries) :
    entries.lookup name = some u := by
  induction entries with
  | nil => cases hm
  | cons e entries ih =>
    obtain ⟨hfirst, hrest⟩ := List.pairwise_cons.1 h
    rcases List.mem_cons.1 hm with rfl | hm
    · exact List.lookup_cons_self
    · have hne : name ≠ e.1 := (Std.ne_of_lt (hfirst _ hm)).symm
      rw [List.lookup_cons, beq_false_of_ne hne]
      exact ih hrest hm

theorem mem_of_lookup_eq_some (h : entries.lookup name = some u) : (name, u) ∈ entries := by
  induction entries with
  | nil => cases h
  | cons e entries ih =>
    rw [List.lookup_cons] at h
    split at h
    · rename_i hname
      cases h
      rw [eq_of_beq hname]
      exact List.mem_cons_self
    · exact List.mem_cons_of_mem _ (ih h)

theorem linkFree_folder_of_mem (h : ∀ e ∈ entries, e.2.LinkFree) : (folder entries).LinkFree :=
  linkFree_folder_iff.2 fun _ _ hu => h _ (mem_of_lookup_eq_some hu)

theorem mem_putEntry {e : String × FileTree} (h : e ∈ putEntry name u entries) : e = (name, u) ∨ e ∈ entries := by
  induction entries with
  | nil => exact .inl (List.mem_singleton.1 h)
  | cons e' entries ih =>
    unfold putEntry at h
    split at h
    · exact List.mem_cons.1 h
    · split at h
      · exact (List.mem_cons.1 h).imp_right (List.mem_cons_of_mem _)
      · rcases List.mem_cons.1 h with rfl | h
        · exact .inr List.mem_cons_self
        · exact (ih h).imp_right (List.mem_cons_of_mem _)

theorem pairwise_putEntry (name : String) (u : FileTree) (h : entries.Pairwise fun e e' => e.1 < e'.1) :
    (putEntry name u entries).Pairwise fun e e' => e.1 < e'.1 := by
  induction entries with
  | nil => exact List.pairwise_singleton _ _
  | cons e entries ih =>
    obtain ⟨hfirst, hrest⟩ := List.pairwise_cons.1 h
    unfold putEntry
    split
    · rename_i hlt
      refine List.pairwise_cons.2 ⟨fun e' he' => ?_, h⟩
      rcases List.mem_cons.1 he' with rfl | he'
      · exact hlt
      · exact String.lt_trans hlt (hfirst e' he')
    · split
      · rename_i heq
        subst heq
        exact List.pairwise_cons.2 ⟨hfirst, hrest⟩
      · rename_i hlt hne
        have hgt : e.1 < name := Std.lt_of_le_of_ne (String.not_lt.1 hlt) (Ne.symm hne)
        refine List.pairwise_cons.2 ⟨fun e' he' => ?_, ih hrest⟩
        rcases mem_putEntry he' with rfl | he'
        · exact hgt
        · exact hfirst e' he'

/-! ## Places -/

/-- What stands in a tidy tree is tidy. -/
theorem Tidy.of_at? (h : t.Tidy) (hat : t.at? place = some u) : u.Tidy := by
  induction place generalizing t with
  | nil =>
    rw [at?_nil] at hat
    cases hat
    exact h
  | cons name names ih =>
    cases h with
    | file content => cases hat
    | link target => cases hat
    | folder ordered named inside =>
      rw [at?_folder_cons] at hat
      obtain ⟨v, hv, hat⟩ := Option.bind_eq_some_iff.1 hat
      exact ih (inside _ (mem_of_lookup_eq_some hv)) hat

/-- What stands in a folder of a tidy tree has a name that a path can lead to. -/
theorem Tidy.isName_of_at? (h : t.Tidy) (hat : t.at? (place ++ [name]) = some u) : Path.IsName name := by
  rw [at?_append] at hat
  obtain ⟨v, hv, hat⟩ := Option.bind_eq_some_iff.1 hat
  cases h.of_at? hv with
  | file content => cases hat
  | link target => cases hat
  | folder ordered named inside =>
    rw [at?_folder_cons] at hat
    obtain ⟨w, hw, -⟩ := Option.bind_eq_some_iff.1 hat
    exact named _ (mem_of_lookup_eq_some hw)

theorem tidy_putEntry (h : (folder entries).Tidy) (hn : Path.IsName name) (hu : u.Tidy) :
    (folder (putEntry name u entries)).Tidy := by
  cases h with
  | folder ordered named inside =>
    refine .folder (pairwise_putEntry name u ordered) (fun e he => ?_) (fun e he => ?_)
    · rcases mem_putEntry he with rfl | he
      · exact hn
      · exact named e he
    · rcases mem_putEntry he with rfl | he
      · exact hu
      · exact inside e he

/-- Putting something tidy at a place with a fit name keeps a tree tidy. -/
theorem Tidy.put {new : FileTree} (h : t.Tidy) (hnew : new.Tidy) (hn : ∀ name ∈ place.getLast?, Path.IsName name) :
    (FileTree.put new place t).Tidy := by
  induction place generalizing t with
  | nil =>
    unfold FileTree.put
    exact hnew
  | cons name names ih =>
    cases h with
    | file content => exact .file content
    | link target => exact .link target
    | folder ordered named inside =>
      have h := Tidy.folder ordered named inside
      cases names with
      | nil => exact tidy_putEntry h (hn name rfl) hnew
      | cons k names =>
        unfold FileTree.put
        cases hv : List.lookup name _ with
        | none => exact h
        | some v =>
          have hmem := mem_of_lookup_eq_some hv
          exact tidy_putEntry h (named _ hmem) (ih (inside _ hmem) fun n hl => hn n (by rwa [List.getLast?_cons_cons]))

theorem Tidy.erase (h : t.Tidy) : (FileTree.erase place t).Tidy := by
  induction place generalizing t with
  | nil =>
    unfold FileTree.erase
    exact h
  | cons name names ih =>
    cases h with
    | file content => cases names <;> exact .file content
    | link target => cases names <;> exact .link target
    | folder ordered named inside =>
      have h := Tidy.folder ordered named inside
      cases names with
      | nil =>
        exact .folder (ordered.filter _) (fun e he => named e (List.mem_filter.1 he).1)
          (fun e he => inside e (List.mem_filter.1 he).1)
      | cons k names =>
        unfold FileTree.erase
        cases hv : List.lookup name _ with
        | none => exact h
        | some v =>
          have hmem := mem_of_lookup_eq_some hv
          exact tidy_putEntry h (named _ hmem) (ih (inside _ hmem))

/-! ## Operations -/

/-- The steps of a path have no slash. -/
theorem not_slash_of_mem_steps {path s : String} (h : s ∈ steps path) : '/' ∉ s.toList := by
  obtain ⟨segment, hsegment, rfl⟩ := List.mem_map.1 h
  rw [String.toList_ofList]
  exact Path.not_mem_of_mem_segments hsegment

theorem isName_of_step (hidle : ¬(name = "" ∨ name = ".")) (hup : name ≠ "..") (hslash : '/' ∉ name.toList) :
    Path.IsName name := by
  have hsame := isIdleStep_ofList name.toList
  rw [String.ofList_toList] at hsame
  exact ⟨hslash, hsame ▸ by simpa [isIdleStep] using hidle, hup⟩

/-- A walk ends at what stands in the tree, or at a fit name that is free. -/
theorem walk_ends {followLast : Bool} {links : Nat} {p : Place} (hrest : ∀ s ∈ rest, '/' ∉ s.toList)
    (h : walk t followLast links here rest = .ok p) :
    (∃ names u, p = .taken names u ∧ t.at? names = some u) ∨
    ∃ above name slash, p = .free (above ++ [name]) slash ∧ Path.IsName name := by
  have htail : ∀ {name : String} {rest : List String}, (∀ s ∈ name :: rest, '/' ∉ s.toList) →
      ∀ s ∈ rest, '/' ∉ s.toList := fun hall s hs => hall s (List.mem_cons_of_mem _ hs)
  fun_induction walk t followLast links here rest with
  | case1 links here u hu =>
    cases h
    exact .inl ⟨here, u, rfl, hu⟩
  | case2 => cases h
  | case3 links here name rest hidle ih => exact ih (htail hrest) h
  | case4 links here rest hidle ih => exact ih (htail hrest) h
  | case5 links here name rest hidle hup hnone hall =>
    cases h
    exact .inr ⟨here, name, _, rfl, isName_of_step hidle hup (hrest _ List.mem_cons_self)⟩
  | case6 => cases h
  | case7 links here name rest hidle hup entries hat ih => exact ih (htail hrest) h
  | case8 links here name rest hidle hup content hat =>
    cases h
    exact .inl ⟨_, _, rfl, hat⟩
  | case9 => cases h
  | case10 links here name rest hidle hup target hat =>
    cases h
    exact .inl ⟨_, _, rfl, hat⟩
  | case11 => cases h
  | case12 here name rest hidle hup target hat hlast links ih =>
    refine ih (fun s hs => ?_) h
    rcases List.mem_append.1 hs with hs | hs
    · exact not_slash_of_mem_steps hs
    · exact htail hrest s hs

theorem place_ends {followLast : Bool} {path : String} {p : Place} (h : t.place followLast path = .ok p) :
    (∃ names u, p = .taken names u ∧ t.at? names = some u) ∨
    ∃ above name slash, p = .free (above ++ [name]) slash ∧ Path.IsName name := by
  unfold place at h
  split at h
  · cases h
  · exact walk_ends (fun _ => not_slash_of_mem_steps) h

/-- The names that lead to a place. -/
def Place.names : Place → List String
  | .taken names _ => names
  | .free names _ => names

theorem Tidy.isName_of_place {followLast : Bool} {path : String} {p : Place} (h : t.Tidy)
    (hp : t.place followLast path = .ok p) : ∀ name ∈ p.names.getLast?, Path.IsName name := by
  intro name hname
  rcases place_ends hp with ⟨names, u, rfl, hat⟩ | ⟨above, last, slash, rfl, hlast⟩
  · obtain ⟨above, rfl⟩ := List.getLast?_eq_some_iff.1 hname
    exact h.isName_of_at? hat
  · have heq : (above ++ [last]).getLast? = some name := hname
    rw [List.getLast?_concat] at heq
    exact Option.some.inj heq ▸ hlast

theorem Tidy.makeFolder (h : t.Tidy) (path : String) : (t.makeFolder path).2.Tidy := by
  unfold FileTree.makeFolder
  cases hp : t.place false path with
  | error e => exact h
  | ok p =>
    cases p with
    | taken names u => exact h
    | free names slash => exact h.put tidy_empty (h.isName_of_place hp)

theorem Tidy.write (h : t.Tidy) (path : String) (content : ByteArray) : (t.write path content).2.Tidy := by
  unfold FileTree.write
  cases hp : t.place true path with
  | error e => exact h
  | ok p =>
    have hname := h.isName_of_place hp
    cases p with
    | taken names u =>
      cases u with
      | file old => exact h.put (.file content) hname
      | link target => exact h
      | folder entries => exact h
    | free names slash =>
      cases slash with
      | true => exact h
      | false => exact h.put (.file content) hname

theorem Tidy.remove (h : t.Tidy) (path : String) : (t.remove path).2.Tidy := by
  unfold FileTree.remove
  cases t.place false path with
  | error e => exact h
  | ok p =>
    cases p with
    | taken names u => cases u <;> first | exact h | exact h.erase
    | free names slash => exact h

theorem Tidy.rename (h : t.Tidy) (source target : String) : (t.rename source target).2.Tidy := by
  unfold FileTree.rename
  cases hs : t.place false source with
  | error e => exact h
  | ok p =>
    cases hp : t.place false target with
    | error e => exact h
    | ok p' =>
      have hname := h.isName_of_place hp
      cases p with
      | free names slash => exact h
      | taken names u =>
        have hu : u.Tidy := by
          rcases place_ends hs with ⟨_, _, heq, hat⟩ | ⟨_, _, _, heq, -⟩
          · cases heq
            exact h.of_at? hat
          · cases heq
        simp only
        split
        · exact h
        · split
          · exact h
          · cases p' with
            | taken names' v => cases v <;> first | exact h | exact h.erase.put hu hname
            | free names' slash => exact h.erase.put hu hname

/-! ## Sameness -/

/-- What stands somewhere, without what lies in it. -/
def top : FileTree → FileTree
  | .folder _ => empty
  | u => u

/-- A tidy tree is told by what stands at each place. -/
theorem Tidy.eq_of_top (h : t.Tidy) (h' : t'.Tidy) (hsame : ∀ place, (t.at? place).map top = (t'.at? place).map top) :
    t = t' := by
  induction h generalizing t' with
  | file content =>
    have htop := hsame []
    rw [at?_nil, at?_nil] at htop
    cases h' <;> cases htop
    rfl
  | link target =>
    have htop := hsame []
    rw [at?_nil, at?_nil] at htop
    cases h' <;> cases htop
    rfl
  | @folder entries ordered named inside ih =>
    cases h' with
    | file content => cases hsame []
    | link target => cases hsame []
    | @folder entries' ordered' named' inside' =>
      have hentry : ∀ name place, ((entries.lookup name).bind (·.at? place)).map top =
          ((entries'.lookup name).bind (·.at? place)).map top := fun name place => hsame (name :: place)
      -- an entry of the one folder is an entry of the other
      have hsub : ∀ e ∈ entries, e ∈ entries' := by
        rintro ⟨name, u⟩ he
        have hlookup := lookup_eq_some_of_mem ordered he
        cases hlookup' : entries'.lookup name with
        | none =>
          have htop := hentry name []
          rw [hlookup, hlookup', Option.bind_some, at?_nil] at htop
          cases htop
        | some u' =>
          have hmem := mem_of_lookup_eq_some hlookup'
          have hbelow : ∀ place, (u.at? place).map top = (u'.at? place).map top := by
            intro place
            have htop := hentry name place
            rwa [hlookup, hlookup'] at htop
          have hu : u = u' := ih _ he (inside' _ hmem) hbelow
          rwa [hu]
      have hsub' : ∀ e ∈ entries', e ∈ entries := by
        rintro ⟨name, u'⟩ he
        have hlookup' := lookup_eq_some_of_mem ordered' he
        cases hlookup : entries.lookup name with
        | none =>
          have htop := hentry name []
          rw [hlookup, hlookup', Option.bind_some, at?_nil] at htop
          cases htop
        | some u =>
          have hmem := mem_of_lookup_eq_some hlookup
          have hu := lookup_eq_some_of_mem ordered' (hsub _ hmem)
          rw [hlookup'] at hu
          rwa [Option.some.inj hu]
      have : Std.Asymm fun e e' : String × FileTree => e.1 < e'.1 := ⟨fun _ _ => String.lt_asymm⟩
      rw [List.Subset.antisymm_of_pairwise ordered ordered' hsub hsub']

end ResourceClient.FileTree
