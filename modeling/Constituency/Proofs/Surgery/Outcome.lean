import Constituency.Surgery.Application

/-!
# Both outcomes of a run

An edit or a step of an application ends with a value or is given up, and in
both cases leaves a state behind. `Ends` states what holds in either case. A
program of several steps is followed through in the order of its steps: what one
leaves behind is what the next one starts from, and a step that is given up
decides for the whole.
-/

namespace Constituency

variable {ε σ α β : Type}

/-- A run from a state ends with a value and a state that satisfy `done`, or is given up for a
reason and in a state that satisfy `failed`. -/
def Ends (x : ExceptT ε (StateM σ) α) (s : σ) (done : α → σ → Prop) (failed : ε → σ → Prop) :
    Prop :=
  match x.run.run s with
  | (.ok a, u) => done a u
  | (.error e, u) => failed e u

namespace Ends

variable {x : ExceptT ε (StateM σ) α} {f : α → ExceptT ε (StateM σ) β} {s : σ}
  {done done' : α → σ → Prop} {failed failed' : ε → σ → Prop} {after : β → σ → Prop}

theorem mono (h : Ends x s done failed) (hdone : ∀ a u, done a u → done' a u)
    (hfailed : ∀ e u, failed e u → failed' e u) : Ends x s done' failed' := by
  unfold Ends at *
  split
  · rename_i a u hrun
    rw [hrun] at h
    exact hdone a u h
  · rename_i e u hrun
    rw [hrun] at h
    exact hfailed e u h

/-- What is known of a run from two sides. -/
theorem and (h : Ends x s done failed) (h' : Ends x s done' failed') :
    Ends x s (fun a u => done a u ∧ done' a u) fun e u => failed e u ∧ failed' e u := by
  unfold Ends at *
  split
  · rename_i a u hrun
    rw [hrun] at h h'
    exact ⟨h, h'⟩
  · rename_i e u hrun
    rw [hrun] at h h'
    exact ⟨h, h'⟩

/-- A run of which the value and the state are known. -/
theorem run_eq {a : α} {u : σ} (h : Ends x s (fun b v => b = a ∧ v = u) fun _ _ => False) :
    x.run.run s = (.ok a, u) := by
  unfold Ends at h
  split at h
  · rename_i b v hrun
    obtain ⟨rfl, rfl⟩ := h
    exact hrun
  · exact h.elim

theorem of_pure {a : α} (h : done a s) : Ends (pure a) s done failed := h

theorem of_throw {e : ε} (h : failed e s) : Ends (throw e : ExceptT ε (StateM σ) α) s done failed :=
  h

/-- One step after the other. -/
theorem bind (hx : Ends x s done failed) (hf : ∀ a u, done a u → Ends (f a) u after failed')
    (hfailed : ∀ e u, failed e u → failed' e u) : Ends (x >>= f) s after failed' := by
  unfold Ends at *
  rw [ExceptT.run_bind, StateT.run_bind]
  rcases hrun : x.run.run s with ⟨r, u⟩
  rw [hrun] at hx
  cases r with
  | ok a => exact hf a u hx
  | error e => exact hfailed e u hx

/-- Reading the state. -/
theorem get_bind {f : σ → ExceptT ε (StateM σ) β} (h : Ends (f s) s after failed) :
    Ends (get >>= f) s after failed :=
  h

/-- Setting the state. -/
theorem set_bind {u : σ} {f : PUnit → ExceptT ε (StateM σ) β} (h : Ends (f ⟨⟩) u after failed) :
    Ends (set u >>= f) s after failed :=
  h

/-- Changing the state. -/
theorem modify_bind {g : σ → σ} {f : PUnit → ExceptT ε (StateM σ) β}
    (h : Ends (f ⟨⟩) (g s) after failed) : Ends (modify g >>= f) s after failed :=
  h

theorem of_modify {g : σ → σ} {done : PUnit → σ → Prop} (h : done ⟨⟩ (g s)) :
    Ends (modify g : ExceptT ε (StateM σ) PUnit) s done failed :=
  h

theorem of_ofExcept {r : Except ε α} (hok : ∀ a, r = .ok a → done a s)
    (herror : ∀ e, r = .error e → failed e s) :
    Ends (ofExcept r : ExceptT ε (StateM σ) α) s done failed := by
  cases r with
  | ok a => exact hok a rfl
  | error e => exact herror e rfl

end Ends

end Constituency
