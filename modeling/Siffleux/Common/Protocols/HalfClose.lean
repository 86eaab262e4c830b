import Mathlib.Logic.Function.Basic
import Siffleux.Common.Protocols.V1

/-!
# Half-close and failure in the bridge

`handle_protocol_v1_tcp_stream` spawns its two copies under a child of the caller's token.  A copy
that comes to the end of its inlet leaves the token alone, so the other direction goes on; one that
fails cancels it.  All connections of a listener, or of an egress, are children of one token.

`TcpStreamBridge.Propagates` is what a bridge keeps to, whatever its two connections do, and
`TcpBridges` is any number of bridges under one token.

* `TcpStreamBridge.Propagates.step` — the token is cancelled by failures, and by nothing else of the
  bridge; a copy that was cancelled had the caller's token or the other copy's failure to blame.
* `half_close` — the four promises about any number of connections, in every run.
-/

namespace Siffleux

open ByteBuf Copying Transition

namespace TcpStreamBridge

/-! ## The two directions -/

inductive Direction where
  | tcpToTunnel
  | tunnelToTcp
  deriving DecidableEq, Repr

def Direction.other : Direction → Direction
  | .tcpToTunnel => .tunnelToTcp
  | .tunnelToTcp => .tcpToTunnel

def Direction.profile : Direction → CopyProfile StreamEnd
  | .tcpToTunnel => Siffleux.tcpToTunnel
  | .tunnelToTcp => Siffleux.tunnelToTcp

/-- The copy of one direction. -/
def half (b : TcpStreamBridge) : Direction → CopyTask UInt8 StreamEnd
  | .tcpToTunnel => b.tcpToTunnel
  | .tunnelToTcp => b.tunnelToTcp

/-- A step of the copy of one direction. -/
def Direction.label : Direction → Copying.Label UInt8 → Label
  | .tcpToTunnel => .tcpToTunnel
  | .tunnelToTcp => .tunnelToTcp

variable {b b' : TcpStreamBridge} {c c' : Bool} {l : Label}

/-- A step of the bridge is one of its two copies, under the two tokens. -/
lemma step_cases (hs : b.step c l = some b') : ∃ d cl, l = Direction.label d cl ∧
    (b.half d).step d.profile (c || b.isCancelled) cl = some (b'.half d) ∧
    b'.half d.other = b.half d.other ∧ b'.isCancelled = (b.isCancelled || cl.isError) := by
  cases l with
  | tcpToTunnel cl =>
      simp only [step, Option.map_eq_some_iff] at hs
      obtain ⟨t, ht, rfl⟩ := hs
      exact ⟨.tcpToTunnel, cl, rfl, ht, rfl, rfl⟩
  | tunnelToTcp cl =>
      simp only [step, Option.map_eq_some_iff] at hs
      obtain ⟨t, ht, rfl⟩ := hs
      exact ⟨.tunnelToTcp, cl, rfl, ht, rfl, rfl⟩

/-- The bridge can do what its copies can. -/
lemma isSome_step (d : Direction) (cl : Copying.Label UInt8) : (b.step c (d.label cl)).isSome =
    ((b.half d).step d.profile (c || b.isCancelled) cl).isSome := by
  cases d with
  | tcpToTunnel => exact Option.isSome_map
  | tunnelToTcp => exact Option.isSome_map

lemma Direction.eq_or_eq_other (d e : Direction) : e = d ∨ e = d.other := by
  cases d <;> cases e <;> simp [Direction.other]

lemma Direction.other_other (d : Direction) : d.other.other = d := by cases d <;> rfl

lemma Direction.ne_other (d : Direction) : d ≠ d.other := by
  cases d <;> simp [Direction.other]

lemma Direction.label_inj {d e : Direction} {cl cl' : Copying.Label UInt8}
    (h : d.label cl = e.label cl') : d = e ∧ cl = cl' := by
  cases d <;> cases e <;> cases h <;> exact ⟨rfl, rfl⟩

lemma Carries.half (h : b.Carries) : ∀ d : Direction, Faithful d.profile (b.half d)
  | .tcpToTunnel => h.tcpToTunnel
  | .tunnelToTcp => h.tunnelToTcp

/-! ## What a bridge keeps to -/

/-- The bridge's token is cancelled when one of its copies has failed, and only then; `c` is
whether the caller's is. -/
structure Propagates (c : Bool) (b : TcpStreamBridge) : Prop where
  carries : b.Carries
  token : b.isCancelled = true ↔ ∃ d, (b.half d).pc = .failed
  cancelled : ∀ d, (b.half d).pc = .cancelled → c = true ∨ b.isCancelled = true

lemma propagates_new : Propagates c .new := by
  have hcopying : ∀ d : Direction, (half .new d).pc = .copying := fun d => by cases d <;> rfl
  refine ⟨carries_new, iff_of_false (fun h => by cases h) ?_, fun d hd => ?_⟩
  · rintro ⟨d, hd⟩
    rw [hcopying d] at hd
    cases hd
  · rw [hcopying d] at hd
    cases hd

lemma Propagates.mono (h : Propagates c b) (hc : c = true → c' = true) : Propagates c' b :=
  ⟨h.carries, h.token, fun d hd => (h.cancelled d hd).imp hc id⟩

theorem Propagates.step (h : Propagates c b) (hs : b.step c l = some b') : Propagates c b' := by
  obtain ⟨d, cl, rfl, hd, hother, htoken⟩ := step_cases hs
  refine ⟨h.carries.step hs, ?_, fun e he => ?_⟩
  · rw [htoken, Bool.or_eq_true, h.token]
    constructor
    · rintro (⟨e, he⟩ | herr)
      · rcases d.eq_or_eq_other e with rfl | rfl
        · exact ⟨e, (CopyTask.pc_failed_iff hd).mpr (Or.inl he)⟩
        · exact ⟨d.other, by rw [hother]; exact he⟩
      · exact ⟨d, (CopyTask.pc_failed_iff hd).mpr (Or.inr herr)⟩
    · rintro ⟨e, he⟩
      rcases d.eq_or_eq_other e with rfl | rfl
      · exact ((CopyTask.pc_failed_iff hd).mp he).imp (fun hf => ⟨e, hf⟩) id
      · rw [hother] at he
        exact Or.inl ⟨d.other, he⟩
  · rw [htoken, Bool.or_eq_true, ← or_assoc]
    refine Or.inl ?_
    rcases d.eq_or_eq_other e with rfl | rfl
    · rcases CopyTask.cancelled_of_step hd he with hold | hcan
      · exact h.cancelled e hold
      · exact (Bool.or_eq_true ..).mp hcan
    · rw [hother] at he
      exact h.cancelled d.other he

/-- What ended a copy that was cancelled: the caller's token, or a failure of the other copy. -/
lemma Propagates.blame (h : Propagates c b) {d : Direction} (hd : (b.half d).pc = .cancelled) :
    c = true ∨ (b.half d.other).pc = .failed := by
  refine (h.cancelled d hd).imp id fun ht => ?_
  obtain ⟨e, he⟩ := h.token.mp ht
  rcases d.eq_or_eq_other e with rfl | rfl
  · rw [hd] at he
    cases he
  · exact he

/-- A copy that goes on can be cancelled once either token is. -/
lemma cancelled_enabled {d : Direction} (hd : (b.half d).pc = .copying)
    (hc : c = true ∨ b.isCancelled = true) : (b.step c (d.label .cancelled)).isSome = true := by
  rw [isSome_step, CopyTask.cancelled_enabled hd ((Bool.or_eq_true ..).mpr hc)]
  rfl

end TcpStreamBridge

/-! ## Any number of connections -/

/-- The connections bridged under one token, each named by a number. -/
structure TcpBridges where
  parentCancelled : Bool
  bridge : ℕ → TcpStreamBridge

namespace TcpBridges

open TcpStreamBridge

def new : TcpBridges := ⟨false, fun _ => .new⟩

inductive Label where
  | connection (k : ℕ) (l : TcpStreamBridge.Label)
  | cancel
  deriving DecidableEq

def setBridge (s : TcpBridges) (k : ℕ) (b : TcpStreamBridge) : TcpBridges :=
  { s with bridge := Function.update s.bridge k b }

def step (s : TcpBridges) : Label → Option TcpBridges
  | .connection k l => ((s.bridge k).step s.parentCancelled l).map (s.setBridge k)
  | .cancel => some { s with parentCancelled := true }

def system : System TcpBridges Label := ⟨new, step⟩

/-- A connection with its caller's token, and nothing else. -/
def alone : System (Bool × TcpStreamBridge) (Option TcpStreamBridge.Label) where
  init := (false, .new)
  step
    | (c, b), some l => (b.step c l).map fun b' => (c, b')
    | (_, b), none => some (true, b)

/-- The steps that concern connection `k`: its own, and the token's. -/
def concerning (k : ℕ) : Label → Option (Option TcpStreamBridge.Label)
  | .connection j l => if j = k then some (some l) else none
  | .cancel => some none

variable {s s' : TcpBridges} {ls : List Label} {l : Label} {k : ℕ} {d : Direction}

@[simp] lemma setBridge_self (b : TcpStreamBridge) : (s.setBridge k b).bridge k = b := by
  simp [setBridge]

@[simp] lemma setBridge_of_ne {j : ℕ} (h : j ≠ k) (b : TcpStreamBridge) :
    (s.setBridge k b).bridge j = s.bridge j := by
  simp [setBridge, h]

@[simp] lemma setBridge_parentCancelled (b : TcpStreamBridge) :
    (s.setBridge k b).parentCancelled = s.parentCancelled := rfl

/-- A step is one connection's, or the token's. -/
inductive Step (s : TcpBridges) : Label → TcpBridges → Prop
  | connection {k : ℕ} {l : TcpStreamBridge.Label} {b : TcpStreamBridge}
      (hb : (s.bridge k).step s.parentCancelled l = some b) :
      Step s (.connection k l) (s.setBridge k b)
  | cancel : Step s .cancel { s with parentCancelled := true }

theorem step_cases (hs : s.step l = some s') : Step s l s' := by
  cases l with
  | connection k l =>
      simp only [step, Option.map_eq_some_iff] at hs
      obtain ⟨b, hb, rfl⟩ := hs
      exact .connection hb
  | cancel =>
      rw [← Option.some.inj hs]
      exact .cancel

lemma isSome_step_connection (l : TcpStreamBridge.Label) : (s.step (.connection k l)).isSome =
    ((s.bridge k).step s.parentCancelled l).isSome := Option.isSome_map

/-! ## Every connection by itself -/

/-- What the others do is invisible to a connection. -/
def isolation (k : ℕ) : Simulation system alone where
  abs s := (s.parentCancelled, s.bridge k)
  lab := concerning k
  inv _ := True
  inv_init := trivial
  inv_step := fun _ _ _ _ _ => trivial
  abs_init := rfl
  visible := by
    intro s l s' m _ hs hl
    cases step_cases hs with
    | @connection j l b hb =>
        simp only [concerning, Option.ite_none_right_eq_some, Option.some.injEq] at hl
        obtain ⟨rfl, rfl⟩ := hl
        show ((s.bridge j).step s.parentCancelled l).map _ = _
        rw [hb, setBridge_self]
        rfl
    | cancel =>
        cases hl
        rfl
  silent := by
    intro s l s' _ hs hl
    cases step_cases hs with
    | @connection j l b hb =>
        have hne : k ≠ j := fun he => by simp [concerning, he] at hl
        rw [setBridge_of_ne hne]
        rfl
    | cancel => cases hl

lemma propagates_run (h : system.Run ls s) (k : ℕ) :
    (s.bridge k).Propagates s.parentCancelled := by
  refine h.invariant (P := fun s => (s.bridge k).Propagates s.parentCancelled)
    propagates_new fun s l s' hi hs => ?_
  cases step_cases hs with
  | @connection j l b hb =>
      by_cases hj : k = j
      · subst hj
        rw [setBridge_self]
        exact hi.step hb
      · rw [setBridge_of_ne hj]
        exact hi
  | cancel => exact hi.mono fun _ => rfl

/-! ## What the schedule tells -/

/-- The copies have left as the schedule says, and the token is cancelled if it says so. -/
structure Recorded (ls : List Label) (s : TcpBridges) : Prop where
  parent : s.parentCancelled = true ↔ .cancel ∈ ls
  left : ∀ k d pc, pc ≠ .copying → (((s.bridge k).half d).pc = pc ↔
    ∃ cl : Copying.Label UInt8, cl.leaves = some pc ∧ .connection k (d.label cl) ∈ ls)

lemma recorded_nil : Recorded [] new := by
  refine ⟨by simp [new], fun k d pc hpc => iff_of_false ?_ (by simp)⟩
  cases d with
  | tcpToTunnel => exact fun h => hpc h.symm
  | tunnelToTcp => exact fun h => hpc h.symm

theorem Recorded.step (h : Recorded ls s) (hs : s.step l = some s') : Recorded (ls ++ [l]) s' := by
  cases step_cases hs with
  | cancel => exact ⟨by simp, fun k d pc hpc => by simpa using h.left k d pc hpc⟩
  | @connection j l b hb =>
      refine ⟨by simpa using h.parent, fun k d pc hpc => ?_⟩
      have hold := h.left k d pc hpc
      by_cases hk : k = j
      · subst hk
        obtain ⟨e, cl', rfl, he, hother, -⟩ := TcpStreamBridge.step_cases hb
        rw [setBridge_self]
        rcases e.eq_or_eq_other d with rfl | rfl
        · rw [CopyTask.pc_of_step he]
          constructor
          · intro hpc'
            cases hl : cl'.leaves with
            | none =>
                rw [hl, Option.getD_none] at hpc'
                obtain ⟨cl, hcl, hmem⟩ := hold.mp hpc'
                exact ⟨cl, hcl, List.mem_append_left _ hmem⟩
            | some q =>
                rw [hl, Option.getD_some] at hpc'
                subst hpc'
                exact ⟨cl', hl, by simp⟩
          · rintro ⟨cl, hcl, hmem⟩
            rcases List.mem_append.mp hmem with hmem | hmem
            · have hleft := hold.mpr ⟨cl, hcl, hmem⟩
              cases hl : cl'.leaves with
              | none => exact hleft
              | some q => exact absurd ((hleft.symm.trans (CopyTask.copying_of_leaves he hl))) hpc
            · simp only [List.mem_singleton, Label.connection.injEq, true_and] at hmem
              obtain ⟨-, rfl⟩ := Direction.label_inj hmem
              rw [hcl, Option.getD_some]
        · rw [hother, hold]
          refine exists_congr fun cl => and_congr_right fun _ => ?_
          rw [List.mem_append, List.mem_singleton]
          refine (or_iff_left fun heq => ?_).symm
          simp only [Label.connection.injEq, true_and] at heq
          exact e.ne_other (Direction.label_inj heq).1.symm
      · rw [setBridge_of_ne hk, hold]
        simp [hk]

lemma recorded_run (h : system.Run ls s) : Recorded ls s := by
  induction h with
  | nil => exact recorded_nil
  | snoc _ hs ih => exact ih.step hs

/-- The copy failed. -/
def Erred (ls : List Label) (k : ℕ) (d : Direction) : Prop :=
  ∃ cl : Copying.Label UInt8, cl.isError = true ∧ .connection k (d.label cl) ∈ ls

lemma Recorded.finished (h : Recorded ls s) : ((s.bridge k).half d).pc = .finished ↔
    .connection k (d.label .readEof) ∈ ls := by
  rw [h.left k d .finished (by simp)]
  simp [Copying.Label.leaves_eq_finished]

lemma Recorded.cancelled (h : Recorded ls s) : ((s.bridge k).half d).pc = .cancelled ↔
    .connection k (d.label .cancelled) ∈ ls := by
  rw [h.left k d .cancelled (by simp)]
  simp [Copying.Label.leaves_eq_cancelled]

lemma Recorded.failed (h : Recorded ls s) : ((s.bridge k).half d).pc = .failed ↔ Erred ls k d := by
  rw [h.left k d .failed (by simp)]
  simp [Copying.Label.leaves_eq_failed, Erred]

/-! ## The promises -/

/-- A copy calls nothing on its writing side before it leaves, and one thing when it does. -/
lemma terminated_length (h : system.Run ls s) (k : ℕ) (d : Direction) :
    ((s.bridge k).half d).outlet.terminated.length =
      if ((s.bridge k).half d).pc = .copying then 0 else 1 := by
  rw [((propagates_run h k).carries.half d).terminated]
  cases ((s.bridge k).half d).pc <;> rfl

/-- The stream is finished by a copy that has come to the end of its inlet, and reset by one that
has left in any other way. -/
lemma tcpToTunnel_terminated (h : system.Run ls s) (k : ℕ) :
    ((s.bridge k).tcpToTunnel.outlet.terminated = [.finish] ↔
      .connection k (.tcpToTunnel .readEof) ∈ ls) ∧
    ((s.bridge k).tcpToTunnel.outlet.terminated = [.reset Code.unknownError] ↔
      (s.bridge k).tcpToTunnel.pc ≠ .copying ∧ .connection k (.tcpToTunnel .readEof) ∉ ls) := by
  have hfin : (s.bridge k).tcpToTunnel.pc = .finished ↔
      .connection k (.tcpToTunnel .readEof) ∈ ls := (recorded_run h).finished (d := .tcpToTunnel)
  rw [(propagates_run h k).carries.tcpToTunnel.terminated, ← hfin]
  cases (s.bridge k).tcpToTunnel.pc <;> simp [CopyProfile.terminators, Siffleux.tcpToTunnel]

/-- The end of one copy's inlet changes nothing for anybody else. -/
lemma isSome_step_of_readEof
    (hs : s.step (.connection k (d.label .readEof)) = some s') {j : ℕ} {e : Direction}
    (hne : ¬(j = k ∧ e = d)) (cl : Copying.Label UInt8) :
    (s'.step (.connection j (e.label cl))).isSome =
      (s.step (.connection j (e.label cl))).isSome := by
  cases step_cases hs with
  | @connection k l b hb =>
      rw [isSome_step_connection, isSome_step_connection, setBridge_parentCancelled]
      by_cases hj : j = k
      · subst hj
        obtain ⟨f, cl', hl, -, hother, htoken⟩ := TcpStreamBridge.step_cases hb
        obtain ⟨rfl, rfl⟩ := Direction.label_inj hl
        rw [setBridge_self, isSome_step, isSome_step, htoken]
        rcases d.eq_or_eq_other e with rfl | rfl
        · exact absurd ⟨rfl, rfl⟩ hne
        · rw [hother]
          simp [Copying.Label.isError]
      · rw [setBridge_of_ne hj]

lemma cancelled_isSome (h : system.Run ls s) (hc : ((s.bridge k).half d).pc = .copying)
    (hcan : .cancel ∈ ls ∨ Erred ls k d.other) :
    (s.step (.connection k (d.label .cancelled))).isSome = true := by
  rw [isSome_step_connection]
  refine cancelled_enabled hc ?_
  rcases hcan with hcan | herr
  · exact Or.inl ((recorded_run h).parent.mpr hcan)
  · exact Or.inr ((propagates_run h k).token.mpr ⟨_, (recorded_run h).failed.mpr herr⟩)

/-- Who cancelled a copy. -/
lemma blame (h : system.Run ls s) (hmem : .connection k (d.label .cancelled) ∈ ls) :
    .cancel ∈ ls ∨ Erred ls k d.other := by
  have hr := recorded_run h
  rw [← hr.parent, ← hr.failed]
  exact (propagates_run h k).blame (hr.cancelled.mpr hmem)

lemma complete (h : system.Run ls s) (hmem : .connection k (d.label .readEof) ∈ ls) :
    ((s.bridge k).half d).inlet.ended = true ∧
      ((s.bridge k).half d).outlet.accepted = ((s.bridge k).half d).inlet.sent :=
  ((propagates_run h k).carries.half d).complete ((recorded_run h).finished.mpr hmem)

/-- What the bridges under one token keep to, after the schedule `ls`. -/
structure HalfClose (ls : List Label) (s : TcpBridges) : Prop where
  once : ∀ k d, ((s.bridge k).half d).outlet.terminated.length =
    if ((s.bridge k).half d).pc = .copying then 0 else 1
  finish : ∀ k, (s.bridge k).tcpToTunnel.outlet.terminated = [.finish] ↔
    .connection k (.tcpToTunnel .readEof) ∈ ls
  reset : ∀ k, (s.bridge k).tcpToTunnel.outlet.terminated = [.reset Code.unknownError] ↔
    (s.bridge k).tcpToTunnel.pc ≠ .copying ∧ .connection k (.tcpToTunnel .readEof) ∉ ls
  complete : ∀ k d, .connection k (Direction.label d .readEof) ∈ ls →
    ((s.bridge k).half d).inlet.ended = true ∧
      ((s.bridge k).half d).outlet.accepted = ((s.bridge k).half d).inlet.sent
  /-- A clean end leaves every other copy all the steps it had. -/
  readEof : ∀ k d s', s.step (.connection k (Direction.label d .readEof)) = some s' →
    ∀ j e cl, ¬(j = k ∧ e = d) → (s'.step (.connection j (Direction.label e cl))).isSome =
      (s.step (.connection j (Direction.label e cl))).isSome
  /-- Nor does it cancel the other direction later. -/
  finished : ∀ k d, .connection k (Direction.label d .readEof) ∈ ls →
    .connection k (d.other.label .cancelled) ∈ ls → .cancel ∈ ls
  error : ∀ k d, Erred ls k d → ((s.bridge k).half d.other).pc = .copying →
    (s.step (.connection k (d.other.label .cancelled))).isSome = true
  parent : .cancel ∈ ls → ∀ k d, ((s.bridge k).half d).pc = .copying →
    (s.step (.connection k (d.label .cancelled))).isSome = true
  blame : ∀ k d, .connection k (Direction.label d .cancelled) ∈ ls →
    .cancel ∈ ls ∨ Erred ls k d.other
  /-- A connection runs as it would without the others. -/
  isolated : ∀ k, alone.Run (ls.filterMap (concerning k)) (s.parentCancelled, s.bridge k)

/-- **Half-close is kept and failure is passed on**, by any number of connections under one token
and in whatever order their copies, their peers and the token take their steps. -/
theorem half_close (h : system.Run ls s) : HalfClose ls s where
  once := terminated_length h
  finish k := (tcpToTunnel_terminated h k).1
  reset k := (tcpToTunnel_terminated h k).2
  complete _ _ hmem := complete h hmem
  readEof _ _ _ hs _ _ cl hne := isSome_step_of_readEof hs hne cl
  finished := by
    intro k d hfin hcan
    refine (blame h hcan).resolve_right fun herr => ?_
    have hr := recorded_run h
    have hpc := hr.failed.mpr herr
    rw [d.other_other, hr.finished.mpr hfin] at hpc
    cases hpc
  error := by
    intro k d herr hc
    exact cancelled_isSome h hc (Or.inr (by rw [d.other_other]; exact herr))
  parent hcan _ _ hc := cancelled_isSome h hc (Or.inl hcan)
  blame _ _ hmem := blame h hmem
  isolated k := (isolation k).run h

/-- Connection 0 fails to write to its target and its other copy follows; connection 1 is half
closed, goes on in the other direction, and is cancelled with the token. -/
theorem half_close_two_connections : ∃ ls s, system.Run ls s ∧ Erred ls 0 .tunnelToTcp ∧
    .connection 1 (.tcpToTunnel .readEof) ∈ ls ∧ .cancel ∈ ls ∧ HalfClose ls s := by
  have h : system.Run
      [.connection 0 (.tunnelToTcp (.sends [7])), .connection 1 (.tcpToTunnel .ends),
        .connection 0 (.tunnelToTcp (.read 1)), .connection 0 (.tunnelToTcp .outletFails),
        .connection 0 (.tunnelToTcp .writeFails), .connection 0 (.tcpToTunnel .cancelled),
        .connection 1 (.tcpToTunnel .readEof), .connection 1 (.tunnelToTcp (.sends [8])),
        .connection 1 (.tunnelToTcp (.read 1)), .cancel,
        .connection 1 (.tunnelToTcp .cancelled)] _ := System.run_of_exec rfl
  exact ⟨_, _, h, ⟨.writeFails, rfl, by simp [Direction.label]⟩, by simp, by simp, half_close h⟩

end TcpBridges

end Siffleux
