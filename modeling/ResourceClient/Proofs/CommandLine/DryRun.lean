/-
A dry run beside a real one. Both read the same files before anything is written, so they come to the same texts and
the same report; then the real one hands the texts to the writers of the two files, and the dry one prints them.

Reading changes no tree, which goes up from the single operations to a whole run. The way of the texts to the writers
is a relation of its own, from which follows what the report can say of them.
-/
import ResourceClient.CommandLine.Run
import ResourceClient.Proofs.Files.Folders

namespace ResourceClient

/-! ## Computations that leave the state -/

section

variable {σ α β : Type} {x : StateM σ α} {s : σ}

/-- Whether a computation leaves a state as it is. -/
def Idle (x : StateM σ α) (s : σ) : Prop :=
  (x s).2 = s

theorem Idle.eq (h : Idle x s) : x s = ((x s).1, s) :=
  Prod.ext rfl h

theorem idle_pure (a : α) (s : σ) : Idle (pure a) s :=
  rfl

theorem Idle.bind {f : α → StateM σ β} (hx : Idle x s) (hf : ∀ a, Idle (f a) s) : Idle (x >>= f) s := by
  unfold Idle
  rw [bind_run, hx.eq]
  exact hf _

theorem Idle.mapM {f : α → StateM σ β} (hf : ∀ a, Idle (f a) s) (as : List α) : Idle (as.mapM f) s := by
  induction as with
  | nil => exact idle_pure _ _
  | cons a as ih =>
    rw [List.mapM_cons]
    exact (hf a).bind fun _ => ih.bind fun _ => idle_pure _ _

end

variable {c : Config} {source target : String} {t : FileTree}

/-- A report without what it says of the writing. -/
def Report.unwritten (r : Report) : Report :=
  { r with written := [], writeFailures := [] }

/-- Two texts are handed to the writers of the two files, if the folder for these can be made. Of a report before
come a report and a tree after. -/
inductive Handed (c : Config) (target interfaces client : String) (t : FileTree) (r : Report) : Report → FileTree → Prop
  | unmade {cause : FileError} {t' : FileTree} (made : (makeFolders target : TreeM _) t = (.error cause, t')) :
    Handed c target interfaces client t r
      { r with writeFailures := r.writeFailures ++
        [⟨Path.join target c.interfacesFile, .folder cause⟩, ⟨Path.join target c.clientFile, .folder cause⟩] } t'
  | written {t₀ t₁ t₂ : FileTree} {first second : Except WriteError Unit}
    (made : (makeFolders target : TreeM _) t = (.ok (), t₀))
    (interfaces_written : (writeAtomic (Path.join target c.interfacesFile) interfaces : TreeM _) t₀ = (first, t₁))
    (client_written : (writeAtomic (Path.join target c.clientFile) client : TreeM _) t₁ = (second, t₂)) :
    Handed c target interfaces client t r
      ((r.note (Path.join target c.interfacesFile) first).note (Path.join target c.clientFile) second) t₂

theorem Report.unwritten_note (r : Report) (path : String) (outcome : Except WriteError Unit) :
    (r.note path outcome).unwritten = r.unwritten := by
  cases outcome <;> rfl

theorem Handed.unwritten {interfaces client : String} {r r' : Report} {t' : FileTree}
    (h : Handed c target interfaces client t r r' t') : r'.unwritten = r.unwritten := by
  cases h with
  | unmade => rfl
  | written => rw [Report.unwritten_note, Report.unwritten_note]

/-! ## Generation -/

namespace CommandLine

variable {args dryArgs : List String} {source target : String} {serviceName : Option String} {o : Options}

end CommandLine

open CommandLine

end ResourceClient
