import Elb.Common.Transition

/-!
# Pipes that keep the order

Items go into a pipe at one end and come out at the other while a system runs, each step putting in
and taking out any number of them. What a run takes out is what was in the pipe and what the run put
in, in this order, up to what is left in the pipe; and a register that shows the last item taken out
shows it over whole runs.
-/

namespace Transition.System

variable {σ ε β : Type*} {T : System σ ε}

/-- What the steps of a run give, one after another. -/
def gathered (f : σ → ε → List β) : σ → List (ε × σ) → List β
  | _, [] => []
  | s, (e, s') :: tr => f s e ++ gathered f s' tr

/-- Labels that give nothing. -/
theorem gathered_eq_nil {f : ε → List β} (s : σ) {tr : List (ε × σ)} (h : ∀ x ∈ tr, f x.1 = []) :
    gathered (fun _ e => f e) s tr = [] := by
  induction tr generalizing s with
  | nil => rfl
  | cons x tr ih =>
    obtain ⟨hx, htr⟩ := List.forall_mem_cons.mp h
    rw [gathered, hx, ih x.2 htr, List.append_nil]

section Pipe

variable {I : σ → Prop} {C : ε → Prop} {put get : σ → ε → List β}

/-- Nothing is lost in the pipe, nothing comes out twice or in another order. -/
theorem Run.gathered_pipe (pipe : σ → List β)
    (hI : ∀ s e s', I s → C e → T.step s e s' → I s')
    (hstep : ∀ s e s', I s → C e → T.step s e s' → get s e ++ pipe s' = pipe s ++ put s e)
    {s : σ} {tr : List (ε × σ)} (h : T.Run s tr) (hC : ∀ x ∈ tr, C x.1) (hs : I s) :
    gathered get s tr ++ pipe (last s tr) = pipe s ++ gathered put s tr := by
  induction h with
  | nil s => exact (List.append_nil _).symm
  | @cons s s' e tr h _ ih =>
    obtain ⟨he, htr⟩ := List.forall_mem_cons.mp hC
    have hone := hstep s e s' hs he h
    have hrest := ih htr (hI s e s' hs he h)
    calc gathered get s ((e, s') :: tr) ++ pipe (last s ((e, s') :: tr))
        = get s e ++ (gathered get s' tr ++ pipe (last s' tr)) := List.append_assoc _ _ _
      _ = (get s e ++ pipe s') ++ gathered put s' tr := by rw [hrest, List.append_assoc]
      _ = pipe s ++ gathered put s ((e, s') :: tr) := by rw [hone, List.append_assoc, gathered]

/-- The register shows the last item that was taken out, or what it has shown before. -/
theorem Run.register_last (register : σ → Option β)
    (hI : ∀ s e s', I s → C e → T.step s e s' → I s')
    (hstep : ∀ s e s', I s → C e → T.step s e s' →
      register s' = (get s e).getLast?.or (register s))
    {s : σ} {tr : List (ε × σ)} (h : T.Run s tr) (hC : ∀ x ∈ tr, C x.1) (hs : I s) :
    register (last s tr) = (gathered get s tr).getLast?.or (register s) := by
  induction h with
  | nil s => rfl
  | @cons s s' e tr h _ ih =>
    obtain ⟨he, htr⟩ := List.forall_mem_cons.mp hC
    rw [last, ih htr (hI s e s' hs he h), hstep s e s' hs he h, gathered, List.getLast?_append,
      Option.or_assoc]

end Pipe

end Transition.System
