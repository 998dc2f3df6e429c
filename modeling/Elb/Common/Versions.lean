import Mathlib.Data.List.Pairwise
import Mathlib.Order.Lattice

/-!
# A versioned value behind two queues

A server has a value with a version, or none. A client holds a copy and its version. It asks for the
value under the version that it holds, and the server answers with the value only if its version is
another one. Questions and answers travel in order, and any of them may be lost.

An answer without the value is meant for a client that holds that version when the answer arrives.
`Sound` says that this is so, as long as the server never returns to a version that is still in use
anywhere: `Sound.install` asks for a version beyond all tokens.
-/

namespace Versions

/-- An answer: there is no value, the version is still that of the question, or the value with its
version. -/
inductive Answer (V : Type*)
  | gone
  | same (v : V)
  | full (v : V)
deriving DecidableEq

/-- The version that the answer names. -/
def Answer.version {V : Type*} : Answer V → Option V
  | .gone => none
  | .same v => some v
  | .full v => some v

/-- The version of the server, the one that the client holds, those that the questions under way
name, and the answers under way. -/
structure Exchange (V : Type*) where
  server : Option V
  held : Option V
  asked : List (Option V)
  sent : List (Answer V)

namespace Exchange

variable {V : Type*} {s : Exchange V}

/-- The version is in use outside of the server. -/
def Token (s : Exchange V) (v : V) : Prop :=
  s.held = some v ∨ some v ∈ s.asked ∨ ∃ r ∈ s.sent, r.version = some v

instance [DecidableEq V] (s : Exchange V) (v : V) : Decidable (s.Token v) :=
  inferInstanceAs (Decidable (_ ∨ _ ∨ ∃ r ∈ s.sent, r.version = some v))

/-- A request repeats a version that was held. -/
theorem Token.of_ask {v : V} (h : Token { s with asked := s.asked ++ [s.held] } v) : s.Token v := by
  rcases h with h | h | h
  · exact .inl h
  · rcases List.mem_append.mp h with h | h
    · exact .inr (.inl h)
    · exact .inl (List.mem_singleton.mp h).symm
  · exact .inr (.inr h)

/-- What is lost was there. -/
theorem Token.of_lose {asked : List (Option V)} {sent : List (Answer V)} {v : V}
    (hasked : asked ⊆ s.asked) (hsent : sent ⊆ s.sent)
    (h : Token { s with asked := asked, sent := sent } v) : s.Token v :=
  h.imp_right <| .imp (fun hmem => hasked hmem) fun ⟨r, hr, heq⟩ => ⟨r, hsent hr, heq⟩

/-- An answer brings the version of the server into use. -/
theorem Token.of_answer {asked : List (Option V)} {r : Answer V} {v : V} (hasked : asked ⊆ s.asked)
    (hr : r.version = s.server) (h : Token { s with asked := asked, sent := s.sent ++ [r] } v) :
    s.Token v ∨ s.server = some v := by
  rcases h with h | h | ⟨r', hr', h⟩
  · exact .inl (.inl h)
  · exact .inl (.inr (.inl (hasked h)))
  · rcases List.mem_append.mp hr' with hr' | hr'
    · exact .inl (.inr (.inr ⟨r', hr', h⟩))
    · rw [List.mem_singleton.mp hr', hr] at h
      exact .inr h

/-- The version that comes in was in a reply. -/
theorem Token.of_receive {r : Answer V} {sent : List (Answer V)} {v : V} (hr : s.sent = r :: sent)
    (h : Token { s with held := r.version, sent := sent } v) : s.Token v := by
  rcases h with h | h | ⟨r', hr', h⟩
  · exact .inr (.inr ⟨r, hr ▸ List.mem_cons_self, h⟩)
  · exact .inr (.inl h)
  · exact .inr (.inr ⟨r', hr ▸ List.mem_cons_of_mem _ hr', h⟩)

variable [LinearOrder V]

/-- What the server answers to a question. -/
def answer (server asked : Option V) : Answer V :=
  match server with
  | none => .gone
  | some v => if asked = some v then .same v else .full v

/-- No version in use is beyond that of the server. A client that holds the version of the server,
or has asked under it, is sent nothing else, and nothing else follows an answer with it. An answer
without the value finds the client at its version, and so does every answer before it. -/
structure Sound (s : Exchange V) : Prop where
  le : ∀ v, s.server = some v → ∀ u, s.Token u → u ≤ v
  held : ∀ v, s.server = some v → s.held = some v → ∀ r ∈ s.sent, r.version = some v
  asked : ∀ v, s.server = some v → some v ∈ s.asked → s.held = some v
  later : ∀ v, s.server = some v →
    s.sent.Pairwise fun r r' => r.version = some v → r'.version = some v
  same : ∀ u, .same u ∈ s.sent → s.held = some u
  before : s.sent.Pairwise fun r r' => ∀ u, r' = .same u → r.version = some u

/-- Nothing is in use and nothing is under way. -/
theorem sound_new (server : Option V) : Sound ⟨server, none, [], []⟩ where
  le := by simp [Token]
  held := by simp
  asked := by simp
  later := by simp
  same := by simp
  before := .nil

/-! ## Steps -/

/-- The client asks under the version that it holds. -/
theorem Sound.ask (h : s.Sound) : Sound { s with asked := s.asked ++ [s.held] } := by
  refine ⟨fun v hv u hu => h.le v hv u hu.of_ask, h.held, fun v hv hmem => ?_, h.later, h.same,
    h.before⟩
  rcases List.mem_append.mp hmem with hmem | hmem
  · exact h.asked v hv hmem
  · exact (List.mem_singleton.mp hmem).symm

/-- Questions and answers are lost. -/
theorem Sound.lose (h : s.Sound) {asked : List (Option V)} {sent : List (Answer V)}
    (hasked : asked ⊆ s.asked) (hsent : sent.Sublist s.sent) :
    Sound { s with asked := asked, sent := sent } where
  le v hv u hu := h.le v hv u (hu.of_lose hasked hsent.subset)
  held v hv hheld r hr := h.held v hv hheld r (hsent.subset hr)
  asked v hv hmem := h.asked v hv (hasked hmem)
  later v hv := (h.later v hv).sublist hsent
  same u hu := h.same u (hsent.subset hu)
  before := h.before.sublist hsent

/-- Every answer has the server's version. -/
theorem answer_version (server asked : Option V) : (answer server asked).version = server := by
  unfold answer
  split
  · rfl
  · split <;> rfl

/-- The server answers the first question. -/
theorem Sound.answer (h : s.Sound) {q : Option V} {asked : List (Option V)}
    (hq : s.asked = q :: asked) :
    Sound { s with asked := asked, sent := s.sent ++ [Exchange.answer s.server q] } := by
  have hsub : asked ⊆ s.asked := hq ▸ List.subset_cons_self q asked
  have hver := answer_version s.server q
  -- an answer without the value finds all versions in line
  have hsame : ∀ u, Exchange.answer s.server q = .same u →
      s.held = some u ∧ ∀ r ∈ s.sent, r.version = some u := by
    intro u hu
    have hs : s.server = some u := by rw [← hver, hu, Answer.version]
    have hqu : q = some u := by
      rw [hs] at hu
      unfold Exchange.answer at hu
      dsimp only at hu
      split at hu
      · next heq => exact heq
      · cases hu
    have hheld := h.asked u hs (hq ▸ hqu ▸ List.mem_cons_self)
    exact ⟨hheld, h.held u hs hheld⟩
  refine ⟨fun v hv u hu => ?_, fun v hv hheld r hr => ?_, fun v hv hmem => h.asked v hv (hsub hmem),
    fun v hv => ?_, fun u hu => ?_, ?_⟩
  · rcases hu.of_answer hsub hver with hu | hu
    · exact h.le v hv u hu
    · exact (Option.some.inj (hu.symm.trans hv)).le
  · rcases List.mem_append.mp hr with hr | hr
    · exact h.held v hv hheld r hr
    · rw [List.mem_singleton.mp hr, hver]
      exact hv
  · refine List.pairwise_append.mpr ⟨h.later v hv, List.pairwise_singleton _ _, ?_⟩
    intro r _ r' hr' _
    rw [List.mem_singleton.mp hr', hver]
    exact hv
  · rcases List.mem_append.mp hu with hu | hu
    · exact h.same u hu
    · exact (hsame u (List.mem_singleton.mp hu).symm).1
  · refine List.pairwise_append.mpr ⟨h.before, List.pairwise_singleton _ _, ?_⟩
    intro r hr r' hr' u hu
    exact (hsame u (List.mem_singleton.mp hr' ▸ hu)).2 r hr

/-- The client takes in the first answer. -/
theorem Sound.receive (h : s.Sound) {r : Answer V} {sent : List (Answer V)}
    (hr : s.sent = r :: sent) :
    Sound { s with held := r.version, sent := sent } := by
  have hmem : r ∈ s.sent := hr ▸ List.mem_cons_self
  have hlater := fun v hv => List.pairwise_cons.mp (hr ▸ h.later v hv)
  have hbefore := List.pairwise_cons.mp (hr ▸ h.before)
  refine ⟨fun v hv u hu => h.le v hv u (hu.of_receive hr), fun v hv hheld r' hr' => ?_,
    fun v hv hmem' => ?_, fun v hv => (hlater v hv).2, fun u hu => ?_, hbefore.2⟩
  · exact (hlater v hv).1 r' hr' hheld
  · exact h.held v hv (h.asked v hv hmem') r hmem
  · exact hbefore.1 _ hu u rfl

/-- The server loses its value. -/
theorem Sound.clear (h : s.Sound) : Sound { s with server := none } :=
  ⟨by simp, by simp, by simp, by simp, h.same, h.before⟩

/-- The server gets a value under a version beyond all that are in use. -/
theorem Sound.install (h : s.Sound) {v : V} (hfresh : ∀ u, s.Token u → u < v) :
    Sound { s with server := some v } := by
  have hno : ¬s.Token v := fun hv => lt_irrefl v (hfresh v hv)
  refine ⟨?_, ?_, ?_, ?_, h.same, h.before⟩
  · rintro _ ⟨⟩ u hu
    exact (hfresh u hu).le
  · rintro _ ⟨⟩ hheld
    exact absurd (.inl hheld) hno
  · rintro _ ⟨⟩ hmem
    exact absurd (.inr (.inl hmem)) hno
  · rintro _ ⟨⟩
    refine List.pairwise_iff_forall_sublist.mpr fun {r r'} hsub hr => ?_
    exact absurd (.inr (.inr ⟨r, hsub.subset List.mem_cons_self, hr⟩)) hno

/-- The server goes on from a value to another one under a version that is not smaller. -/
theorem Sound.advance (h : s.Sound) {v v' : V} (hv : s.server = some v) (hle : v ≤ v') :
    Sound { s with server := some v' } := by
  rcases hle.eq_or_lt with rfl | hlt
  · rwa [← hv]
  · exact h.install fun u hu => (h.le v hv u hu).trans_lt hlt

/-! ## Versions that are times -/

/-- A sound exchange whose versions so far are at most `now`. -/
structure Dated (now : V) (s : Exchange V) : Prop extends s.Sound where
  server_le : ∀ v, s.server = some v → v ≤ now
  token_le : ∀ u, s.Token u → u ≤ now

section Dated

variable {now now' : V}

/-- At first there are no versions. -/
theorem dated_new (now : V) : Dated now ⟨none, none, [], []⟩ :=
  ⟨sound_new none, by simp, by simp [Token]⟩

/-- Time goes on. -/
theorem Dated.mono (h : s.Dated now) (hle : now ≤ now') : s.Dated now' :=
  ⟨h.toSound, fun v hv => (h.server_le v hv).trans hle, fun u hu => (h.token_le u hu).trans hle⟩

/-- A question repeats a version that is in use. -/
theorem Dated.ask (h : s.Dated now) : Dated now { s with asked := s.asked ++ [s.held] } :=
  ⟨h.toSound.ask, h.server_le, fun u hu => h.token_le u hu.of_ask⟩

/-- A loss brings no version into use. -/
theorem Dated.lose (h : s.Dated now) {asked : List (Option V)} {sent : List (Answer V)}
    (hasked : asked ⊆ s.asked) (hsent : sent.Sublist s.sent) :
    Dated now { s with asked := asked, sent := sent } :=
  ⟨h.toSound.lose hasked hsent, h.server_le,
    fun u hu => h.token_le u (hu.of_lose hasked hsent.subset)⟩

/-- An answer brings in the server's version, which is not beyond `now`. -/
theorem Dated.answer (h : s.Dated now) {q : Option V} {asked : List (Option V)}
    (hq : s.asked = q :: asked) :
    Dated now { s with asked := asked, sent := s.sent ++ [Exchange.answer s.server q] } := by
  refine ⟨h.toSound.answer hq, h.server_le, fun u hu => ?_⟩
  rcases hu.of_answer (hq ▸ List.subset_cons_self q asked) (answer_version s.server q) with hu | hu
  · exact h.token_le u hu
  · exact h.server_le u hu

/-- The version that comes in was in use. -/
theorem Dated.receive (h : s.Dated now) {r : Answer V} {sent : List (Answer V)}
    (hr : s.sent = r :: sent) : Dated now { s with held := r.version, sent := sent } :=
  ⟨h.toSound.receive hr, h.server_le, fun u hu => h.token_le u (hu.of_receive hr)⟩

/-- The versions under way stay in use. -/
theorem Dated.clear (h : s.Dated now) : Dated now { s with server := none } :=
  ⟨h.toSound.clear, by simp, h.token_le⟩

/-- The server gets a value, or another one, under the present time. A first value needs that this
time is in use nowhere. -/
theorem Dated.install (h : s.Dated now) (hfresh : s.server = none → ¬s.Token now) :
    Dated now { s with server := some now } := by
  refine ⟨?_, by rintro _ ⟨⟩; exact le_rfl, h.token_le⟩
  cases hs : s.server with
  | none =>
    refine h.toSound.install fun u hu => lt_of_le_of_ne (h.token_le u hu) ?_
    rintro rfl
    exact hfresh hs hu
  | some v => exact h.toSound.advance hs (h.server_le v hs)

end Dated

end Exchange

end Versions
