import Siffleux.Server.Ingress.UdpIngress

/-!
# The reader of a tunnel and the end of its connection

The reader loop of the UDP ingress has two branches, `read_datagram` and the cancellation token,
and leaves on an error only when that is `ClosedTunnel`.  A lost connection hands out its error at
every call, so what the error was turned into decides between leaving and spinning.

* `reader_step`, `connection_step` — all that one step can do to a reader, and to a connection
  that is lost and drained.
* `reader_ended_iff` — from the moment the error is all there is to read, whatever else runs: a
  reader that has called `read_datagram` at least once more has left its loop exactly when the
  connection ended in an orderly way.
-/

namespace Siffleux

open ByteBuf Transition

/-- A lost connection with nothing left to read. -/
def TunnelConnection.Drained (c : TunnelConnection) (e : ConnectionError) : Prop :=
  c.datagrams = [] ∧ c.lost = some e

lemma TunnelConnection.Drained.readDatagram {c : TunnelConnection} {e : ConnectionError}
    (h : c.Drained e) : c.readDatagram = some (.error (.ofConnectionError e), c) := by
  rw [TunnelConnection.readDatagram, h.1, h.2]

/-- `read_datagram` fails only on a connection that has ended and has been read to its end. -/
lemma TunnelConnection.drained_of_readDatagram {c c' : TunnelConnection} {e : Error}
    (h : c.readDatagram = some (.error e, c')) : ∃ e', c.Drained e' := by
  rw [TunnelConnection.readDatagram] at h
  split at h
  · cases h
  · rename_i e' hd hl
    exact ⟨e', hd, hl⟩
  · cases h

namespace UdpIngress

variable {τ : Type} [DecidableEq τ] {w : ℕ}

/-! ## What a step can do to one tunnel -/

/-- A reader gets through a datagram exactly when its origin is whole. -/
lemma forwardToOrigin_returns_iff (bytes : Bytes) :
    (∃ s, forwardToOrigin bytes = .ret s) ↔ OriginHeaderWhole bytes := by
  refine ⟨?_, fun h => ?_⟩
  · rintro ⟨s, hs⟩
    obtain ⟨r, hr, -⟩ := Outcome.map_eq_ret_iff.mp hs
    exact .of_extract hr
  · obtain ⟨r, hr⟩ := h.extract
    exact ⟨_, Outcome.map_eq_ret_iff.mpr ⟨r, hr, rfl⟩⟩

/-- The steps that move the reader of `t`, and to where. -/
inductive ReaderMoves (s : UdpIngress τ w) (t : τ) : Label τ → ReaderPc → Prop
  | spawned {i : ℕ} (h : s.assign t = .spawnReader i) :
      ReaderMoves s t (.spawnReader t) (.running i)
  | panics {i : ℕ} {bytes : Bytes} {c : TunnelConnection} (h : s.reader t = .running i)
      (hr : (s.connection t).readDatagram = some (.ok bytes, c))
      (hf : forwardToOrigin bytes = .panic) : ReaderMoves s t (.readDatagram t) .panicked
  | leaves {i : ℕ} {e : Error} {c : TunnelConnection} (h : s.reader t = .running i)
      (hr : (s.connection t).readDatagram = some (.error e, c)) (he : e.isClosedTunnel = true) :
      ReaderMoves s t (.readDatagram t) .ended
  | cancelled {i : ℕ} (h : s.reader t = .running i) (hc : s.isCancelled i = true) :
      ReaderMoves s t (.readerCancelled t) .ended

/-- **The reader of a tunnel moves by three kinds of steps only.** -/
theorem reader_step {s s' : UdpIngress τ w} {l : Label τ} (hs : step s l = some s') (t : τ) :
    s'.reader t = s.reader t ∨ ReaderMoves s t l (s'.reader t) := by
  have hmove : ∀ {u pc}, s'.reader = Function.update s.reader u pc → ReaderMoves s u l pc →
      s'.reader t = s.reader t ∨ ReaderMoves s t l (s'.reader t) := by
    intro u pc hr hm
    rw [hr]
    rcases eq_or_ne t u with rfl | hne
    · rw [Function.update_self]
      exact Or.inr hm
    · exact Or.inl (Function.update_of_ne hne _ _)
  cases step_cases hs with
  | readerSpawned h => exact hmove rfl (.spawned h)
  | readerPanics h hr hf => exact hmove rfl (.panics h hr hf)
  | readerLeaves h hr he => exact hmove rfl (.leaves h hr he)
  | readerCancelled h hc => exact hmove rfl (.cancelled h hc)
  | _ => exact Or.inl rfl

/-- The first reason a connection ended for is the one it keeps, and nothing arrives after it. -/
lemma drained_step {s s' : UdpIngress τ w} {l : Label τ} (hs : step s l = some s') {t : τ}
    {e : ConnectionError} (hd : (s.connection t).Drained e) : (s'.connection t).Drained e := by
  have hmove : ∀ {u c}, s'.connection = Function.update s.connection u c →
      (u = t → c.Drained e) → (s'.connection t).Drained e := by
    intro u c hc hm
    rw [hc]
    rcases eq_or_ne t u with rfl | hne
    · rw [Function.update_self]
      exact hm rfl
    · rw [Function.update_of_ne hne]
      exact hd
  cases step_cases hs with
  | arrived h =>
      refine hmove rfl ?_
      rintro rfl
      rw [hd.2] at h
      cases h
  | closed h =>
      refine hmove rfl ?_
      rintro rfl
      rw [hd.2] at h
      cases h
  | forwarded h hr hf =>
      refine hmove rfl ?_
      rintro rfl
      rw [hd.readDatagram] at hr
      cases hr
  | readerPanics h hr hf =>
      refine hmove rfl ?_
      rintro rfl
      rw [hd.readDatagram] at hr
      cases hr
  | readerCancelled h hc =>
      refine hmove rfl ?_
      rintro rfl
      exact ⟨hd.1, by rw [TunnelConnection.close, hd.2]; rfl⟩
  | _ => exact hd

/-- A cancelled token stays cancelled. -/
lemma isCancelled_step {s s' : UdpIngress τ w} {l : Label τ} (hs : step s l = some s') {i : ℕ}
    (hc : s.isCancelled i = true) : s'.isCancelled i = true := by
  cases step_cases hs with
  | @stopped j h =>
      rcases eq_or_ne i j with rfl | hne
      · exact Function.update_self _ _ _
      · show Function.update s.isCancelled j true i = true
        rw [Function.update_of_ne hne]
        exact hc
  | _ => exact hc

/-- A reader exists only after `assign_tunnel` has spawned it. -/
def ReaderAssigned (s : UdpIngress τ w) (t : τ) : Prop :=
  s.reader t = .notSpawned ∨ s.assign t = .register

lemma readerAssigned_step {s s' : UdpIngress τ w} {l : Label τ} {t : τ} (h : s.ReaderAssigned t)
    (hs : step s l = some s') : s'.ReaderAssigned t := by
  have hassign : ∀ {u pc}, s'.reader t = s.reader t → s'.assign = Function.update s.assign u pc →
      s.assign u = .notCalled → s'.ReaderAssigned t := by
    intro u pc hr ha hn
    rcases eq_or_ne t u with rfl | hne
    · refine Or.inl (hr.trans (h.resolve_right ?_))
      rw [hn]
      simp
    · rw [ReaderAssigned, hr, ha, Function.update_of_ne hne]
      exact h
  have hmove : ∀ {u pc i}, s.reader u = .running i → s'.reader = Function.update s.reader u pc →
      s'.assign = s.assign → s'.ReaderAssigned t := by
    intro u pc i hu hr ha
    rcases eq_or_ne t u with rfl | hne
    · refine Or.inr ((congrFun ha t).trans (h.resolve_left ?_))
      rw [hu]
      simp
    · rw [ReaderAssigned, ha, hr, Function.update_of_ne hne]
      exact h
  cases step_cases hs with
  | assigned hn hi => exact hassign rfl rfl hn
  | rejected hn hi => exact hassign rfl rfl hn
  | @readerSpawned u i hn =>
      rcases eq_or_ne t u with rfl | hne
      · exact Or.inr (Function.update_self _ _ _)
      · show Function.update s.reader u _ t = _ ∨ Function.update s.assign u _ t = _
        rw [Function.update_of_ne hne, Function.update_of_ne hne]
        exact h
  | readerPanics hu hr hf => exact hmove hu rfl rfl
  | readerLeaves hu hr he => exact hmove hu rfl rfl
  | readerCancelled hu hc => exact hmove hu rfl rfl
  | _ => exact h

lemma readerAssigned {ls : List (Label τ)} {s : UdpIngress τ w} (h : (system τ w).Run ls s)
    (t : τ) : s.ReaderAssigned t :=
  h.invariant (P := fun s => s.ReaderAssigned t) (Or.inl rfl) fun _ _ _ hi hs =>
    readerAssigned_step hi hs

/-- A tunnel reaches the list only behind its reader. -/
lemma register_of_assign {ls : List (Label τ)} {s : UdpIngress τ w}
    (h : (system τ w).Run ls s) (k : τ) (hk : s.list.assign k ≠ .notCalled) :
    s.assign k = .register := by
  have hinv : ∀ k, s.list.assign k ≠ .notCalled → s.assign k = .register := by
    refine h.invariant (P := fun s : UdpIngress τ w =>
      ∀ k, s.list.assign k ≠ .notCalled → s.assign k = .register)
      (fun _ hk => absurd rfl hk) fun s l s' hi hs k hk => ?_
    have hset : ∀ {t : τ} {pc : UdpAssignPc}, s.assign t ≠ .register →
        s.list.assign k ≠ .notCalled → Function.update s.assign t pc k = .register := by
      intro t pc ht hk
      have hne : k ≠ t := fun e => ht (e ▸ hi k hk)
      rw [Function.update_of_ne hne]
      exact hi k hk
    have hs' : s.step l = some s' := hs
    cases step_cases hs' with
    | assigned ht => exact hset (by rw [ht]; simp) hk
    | rejected ht => exact hset (by rw [ht]; simp) hk
    | readerSpawned ht => exact hset (by rw [ht]; simp) hk
    | @list tl list ha ht =>
        cases tl with
        | spawnWatcher t =>
            simp only [TunnelList.step, Option.ite_none_right_eq_some, Option.some.injEq] at ht
            obtain ⟨-, rfl⟩ := ht
            rcases eq_or_ne k t with rfl | hne
            · exact beq_iff_eq.mp ha
            · exact hi k (by simpa [hne] using hk)
        | push t =>
            simp only [TunnelList.step, Option.ite_none_right_eq_some, Option.some.injEq] at ht
            obtain ⟨hp, rfl⟩ := ht
            rcases eq_or_ne k t with rfl | hne
            · exact hi k (by rw [hp]; simp)
            · exact hi k (by simpa [hne] using hk)
        | watcherWakes t | watcherRemoves t =>
            simp only [TunnelList.step, Option.ite_none_right_eq_some, Option.some.injEq] at ht
            obtain ⟨-, rfl⟩ := ht
            exact hi k hk
    | _ => exact hi k hk
  exact hinv k hk

/-! ## The reader and the end of its connection -/

/-- The reader is in its loop, and the reason its connection ended for is all there is to read. -/
structure AtTheEnd (s : UdpIngress τ w) (t : τ) (i : ℕ) (e : ConnectionError) : Prop where
  running : s.reader t = .running i
  drained : (s.connection t).Drained e

/-- A turn of the loop there: it leaves on `ClosedTunnel`, and otherwise nothing has changed. -/
lemma AtTheEnd.read {s s' : UdpIngress τ w} {t : τ} {i : ℕ} {e : ConnectionError}
    (h : s.AtTheEnd t i e) (hs : step s (.readDatagram t) = some s') :
    if e.isOrderly then s'.reader t = .ended else s' = s := by
  simp only [step, h.running, UdpIngress.readDatagram, h.drained.readDatagram,
    Error.isClosedTunnel_ofConnectionError] at hs
  split_ifs at hs ⊢ <;> rw [← Option.some.inj hs]
  exact Function.update_self _ _ _

/-- Nothing else gets the reader out, as long as its token is not cancelled. -/
lemma AtTheEnd.step {s s' : UdpIngress τ w} {l : Label τ} {t : τ} {i : ℕ} {e : ConnectionError}
    (h : s.AtTheEnd t i e) (ha : s.ReaderAssigned t) (hs : step s l = some s')
    (hc : s.isCancelled i = false) (hl : l = .readDatagram t → e.isOrderly = false) :
    s'.AtTheEnd t i e := by
  refine ⟨?_, drained_step hs h.drained⟩
  rcases reader_step hs t with he | hm
  · rw [he]
    exact h.running
  · exfalso
    have hr := h.running
    generalize s'.reader t = pc at hm
    cases hm with
    | spawned hs' =>
        rcases ha with hn | hn
        · rw [hr] at hn
          cases hn
        · rw [hs'] at hn
          cases hn
    | panics _ hd _ =>
        rw [h.drained.readDatagram] at hd
        cases hd
    | leaves _ hd he =>
        rw [h.drained.readDatagram] at hd
        cases hd
        rw [Error.isClosedTunnel_ofConnectionError, hl rfl] at he
        cases he
    | cancelled hr' hc' =>
        rw [hr] at hr'
        cases hr'
        rw [hc] at hc'
        cases hc'

/-- A reader that has left does not come back. -/
lemma ended_step {s s' : UdpIngress τ w} {l : Label τ} {t : τ} (h : s.reader t = .ended)
    (ha : s.ReaderAssigned t) (hs : step s l = some s') : s'.reader t = .ended := by
  rcases reader_step hs t with he | hm
  · rw [he]
    exact h
  · have hno : ∀ i, s.reader t ≠ .running i := by
      intro i hr
      rw [h] at hr
      cases hr
    exfalso
    generalize s'.reader t = pc at hm
    cases hm with
    | spawned hs' =>
        rcases ha with hn | hn
        · rw [h] at hn
          cases hn
        · rw [hs'] at hn
          cases hn
    | panics hr => exact absurd hr (hno _)
    | leaves hr => exact absurd hr (hno _)
    | cancelled hr => exact absurd hr (hno _)

/-- A schedule that does not get the reader out: its calls, if any, all return an error that is
not `ClosedTunnel`. -/
lemma AtTheEnd.exec {s s' : UdpIngress τ w} {ms : List (Label τ)} {t : τ} {i : ℕ}
    {e : ConnectionError} (h : s.AtTheEnd t i e) (ha : s.ReaderAssigned t)
    (hm : (system τ w).exec s ms = some s') (hc : s'.isCancelled i = false)
    (hl : .readDatagram t ∈ ms → e.isOrderly = false) : s'.AtTheEnd t i e := by
  have hkeep : s'.ReaderAssigned t ∧ (s'.isCancelled i = true ∨ s'.AtTheEnd t i e) := by
    refine System.exec_preserves ms ?_ ⟨ha, Or.inr h⟩ hm
      (P := fun s => s.ReaderAssigned t ∧ (s.isCancelled i = true ∨ s.AtTheEnd t i e))
    rintro m hmem s₁ s₂ ⟨ha₁, hor⟩ hs
    refine ⟨readerAssigned_step ha₁ hs, ?_⟩
    rcases hor with hc₁ | he
    · exact Or.inl (isCancelled_step hs hc₁)
    · cases hc₁ : s₁.isCancelled i with
      | true => exact Or.inl (isCancelled_step hs hc₁)
      | false => exact Or.inr (he.step ha₁ hs hc₁ fun hm' => hl (hm' ▸ hmem))
  rcases hkeep.2 with ht | he
  · rw [hc] at ht
    cases ht
  · exact he

/-- **The reader ends with its connection exactly when that ended in an orderly way.**  In any
run, take a moment where the reader is in its loop and the reason its connection ended for is all
there is to read.  However the run goes on with the token uncancelled, once the reader has called
`read_datagram` again it has left the loop if and only if the connection was closed on this side,
or by the peer with code 0. -/
theorem reader_ended_iff (ls ms : List (Label τ)) (s s' : UdpIngress τ w) (t : τ) (i : ℕ)
    (e : ConnectionError) (h : (system τ w).Run ls s) (ha : s.AtTheEnd t i e)
    (hm : (system τ w).exec s ms = some s') (hc : s'.isCancelled i = false)
    (hread : .readDatagram t ∈ ms) : s'.reader t = .ended ↔ e.isOrderly = true := by
  have has := readerAssigned h t
  cases ho : e.isOrderly with
  | false =>
      have hr := (ha.exec has hm hc fun _ => ho).running
      rw [hr]
      simp
  | true =>
      obtain ⟨as, bs, rfl, hnot⟩ := List.eq_append_cons_of_mem hread
      rw [System.exec_append, Option.bind_eq_some_iff] at hm
      obtain ⟨s₁, h₁, hm⟩ := hm
      simp only [System.exec, Option.bind_eq_some_iff] at hm
      obtain ⟨s₂, h₂, h₃⟩ := hm
      have hstep : step s₁ (.readDatagram t) = some s₂ := h₂
      have hrun₁ := h.exec_append as h₁
      have hc₂ : s₁.isCancelled i = false := by
        cases hb : s₁.isCancelled i with
        | false => rfl
        | true =>
            have hs' := System.exec_preserves (M := system τ w)
              (P := fun s => s.isCancelled i = true)
              bs (fun _ _ _ _ h hs => isCancelled_step hs h) (isCancelled_step hstep hb) h₃
            rw [hc] at hs'
            cases hs'
      have hend := (ha.exec has h₁ hc₂ fun hmem => absurd hmem hnot).read hstep
      rw [if_pos ho] at hend
      have hkeep := System.exec_preserves (M := system τ w)
        (P := fun s => s.reader t = .ended ∧ s.ReaderAssigned t) bs
        (fun _ _ _ _ h hs => ⟨ended_step h.1 h.2 hs, readerAssigned_step h.2 hs⟩)
        ⟨hend, readerAssigned (hrun₁.snoc h₂) t⟩ h₃
      exact iff_of_true hkeep.1 rfl

/-- A tunnel is assigned to a listening ingress and its connection ends with `e`. -/
def assignedThenClosed (e : ConnectionError) : List (Label ℕ) :=
  [.start, .assignTunnel 7, .spawnReader 7, .close 7 e]

/-- The peer closes with code 0: the first call gets the reader out. -/
theorem reader_ended_on_eof : ∃ s s',
    (system ℕ 64).Run (assignedThenClosed (.applicationClosed ⟨Code.connectionEof, []⟩)) s ∧
      step s (.readDatagram 7) = some s' ∧ s'.reader 7 = .ended := by
  have h : (system ℕ 64).Run (assignedThenClosed (.applicationClosed ⟨Code.connectionEof, []⟩)) _ :=
    System.run_of_exec rfl
  exact ⟨_, _, h, rfl, (reader_ended_iff _ [.readDatagram 7] _ _ 7 0 _ h ⟨rfl, rfl, rfl⟩ rfl rfl
    (by decide)).mpr rfl⟩

/-- The connection times out: every call returns the same error at once and changes nothing. -/
theorem reader_spins_on_timeout : ∃ s, (system ℕ 64).Run (assignedThenClosed .timedOut) s ∧
    s.AtTheEnd 7 0 .timedOut ∧ s.isCancelled 0 = false ∧
      step s (.readDatagram 7) = some s ∧ s.reader 7 ≠ .ended :=
  ⟨_, System.run_of_exec rfl, ⟨rfl, rfl, rfl⟩, rfl, rfl, by decide⟩

end UdpIngress

end Siffleux
