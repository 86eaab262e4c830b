import Siffleux.Server.Ingress.LoadBalancing

/-!
# Tunnels across a restart of the UDP ingress

`assign_tunnel` copies the socket and its token under a read guard and uses the copy without it, so
a `stop`, and another `start`, may come before the reader is spawned or the tunnel pushed.  The
reader is then bound to a socket that is gone, with a token that is cancelled, and closes its
tunnel.

What the copy cannot help is a reader that ends in another way: it panics on a datagram that is too
short for its origin, and leaves the tunnel open and in the list.

* `Bound` — which reader holds which token, over any run.
* `not_stranded_iff` — a listed open tunnel has its reader, as long as no such datagram is read from
  one, and no tunnel it was read from is pushed.
-/

namespace Siffleux

open ByteBuf Transition

namespace UdpIngress

variable {τ : Type} [DecidableEq τ] {w : ℕ} {ls : List (Label τ)} {s s' : UdpIngress τ w}
  {l : Label τ} {t : τ}

/-! ## Readers and their tokens -/

/-- The socket `i` is the current one, or its token is cancelled. -/
def CurrentOrCancelled (s : UdpIngress τ w) (i : ℕ) : Prop :=
  s.udpSocket = some i ∨ s.isCancelled i = true

/-- What `assign_tunnel` and the readers know of the sockets. -/
structure Bound (s : UdpIngress τ w) : Prop where
  copied : ∀ t i, s.assign t = .spawnReader i → s.CurrentOrCancelled i
  held : ∀ t i, s.reader t = .running i → s.CurrentOrCancelled i
  spawned : ∀ t, s.assign t = .register → s.reader t ≠ .notSpawned
  closed : ∀ t, s.reader t = .ended → s.isClosed t = true

omit [DecidableEq τ] in
lemma bound_new : (new τ w).Bound :=
  ⟨fun _ _ h => by simp [new] at h, fun _ _ h => by simp [new] at h, fun _ h => by simp [new] at h,
    fun _ h => by simp [new] at h⟩

/-- A socket is replaced only after its token has been cancelled. -/
lemma CurrentOrCancelled.step {i : ℕ} (h : s.CurrentOrCancelled i) (hs : step s l = some s') :
    s'.CurrentOrCancelled i := by
  rcases h with hi | hc
  · cases step_cases hs with
    | started hn =>
        rw [hn] at hi
        cases hi
    | @stopped j hj =>
        obtain rfl : j = i := Option.some.inj (hj.symm.trans hi)
        exact Or.inr (Function.update_self ..)
    | _ => exact Or.inl hi
  · exact Or.inr (isCancelled_step hs hc)

/-- A connection that has ended does not come back. -/
lemma isClosed_step (h : s.isClosed t = true) (hs : step s l = some s') : s'.isClosed t = true := by
  have hmove : ∀ {u c}, s'.connection = Function.update s.connection u c →
      (c.lost.isSome = true ∨ c.lost = (s.connection u).lost) → s'.isClosed t = true := by
    intro u c hc hl
    rw [isClosed, hc]
    rcases eq_or_ne t u with rfl | hne
    · rw [Function.update_self]
      rcases hl with hl | hl
      · exact hl
      · rw [hl]
        exact h
    · rw [Function.update_of_ne hne]
      exact h
  cases step_cases hs with
  | arrived _ => exact hmove rfl (Or.inr rfl)
  | closed _ => exact hmove rfl (Or.inl rfl)
  | forwarded _ hr _ => exact hmove rfl (Or.inr (TunnelConnection.lost_of_readDatagram hr))
  | readerPanics _ hr _ => exact hmove rfl (Or.inr (TunnelConnection.lost_of_readDatagram hr))
  | readerCancelled _ _ => exact hmove rfl (Or.inl rfl)
  | _ => exact h

/-- How far `assign_tunnel` has come before the list. -/
lemma assign_step (hs : step s l = some s') (t : τ) : s'.assign t = s.assign t ∨
    (∃ i, s'.assign t = .spawnReader i ∧ s.udpSocket = some i) ∨ s'.assign t = .rejected ∨
    (s'.assign t = .register ∧ ∃ i, s'.reader t = .running i) := by
  have hmove : ∀ {u pc}, s'.assign = Function.update s.assign u pc →
      (u = t → (∃ i, pc = .spawnReader i ∧ s.udpSocket = some i) ∨ pc = .rejected ∨
        (pc = .register ∧ ∃ i, s'.reader t = .running i)) →
      s'.assign t = s.assign t ∨
      (∃ i, s'.assign t = .spawnReader i ∧ s.udpSocket = some i) ∨ s'.assign t = .rejected ∨
      (s'.assign t = .register ∧ ∃ i, s'.reader t = .running i) := by
    intro u pc ha hpc
    rw [ha]
    rcases eq_or_ne t u with rfl | hne
    · rw [Function.update_self]
      exact Or.inr (hpc rfl)
    · exact Or.inl (Function.update_of_ne hne ..)
  cases step_cases hs with
  | assigned _ hi => exact hmove rfl fun _ => Or.inl ⟨_, rfl, hi⟩
  | rejected _ _ => exact hmove rfl fun _ => Or.inr (Or.inl rfl)
  | readerSpawned _ =>
      refine hmove rfl ?_
      rintro rfl
      exact Or.inr (Or.inr ⟨rfl, _, Function.update_self ..⟩)
  | _ => exact Or.inl rfl

theorem Bound.step (h : s.Bound) (hs : UdpIngress.step s l = some s') : s'.Bound := by
  refine ⟨fun t i hi => ?_, fun t i hi => ?_, fun t ht => ?_, fun t ht => ?_⟩
  · rcases assign_step hs t with he | ⟨j, hj, hsocket⟩ | hr | ⟨hr, -⟩
    · rw [he] at hi
      exact (h.copied t i hi).step hs
    · rw [hj] at hi
      cases hi
      exact CurrentOrCancelled.step (Or.inl hsocket) hs
    · rw [hr] at hi
      cases hi
    · rw [hr] at hi
      cases hi
  · rcases reader_step hs t with he | hm
    · rw [he] at hi
      exact (h.held t i hi).step hs
    · rw [hi] at hm
      cases hm with
      | spawned ha => exact (h.copied t i ha).step hs
  · rcases reader_step hs t with he | hm
    · rw [he]
      rcases assign_step hs t with ha | ⟨j, hj, -⟩ | hr | ⟨-, i, hi⟩
      · exact h.spawned t (ha.symm.trans ht)
      · rw [hj] at ht
        cases ht
      · rw [hr] at ht
        cases ht
      · rw [← he, hi]
        simp
    · intro hn
      rw [hn] at hm
      cases hm
  · rcases reader_step hs t with he | hm
    · rw [he] at ht
      exact isClosed_step (h.closed t ht) hs
    · rw [ht] at hm
      cases hm with
      | leaves _ hr _ =>
          obtain ⟨e, -, hl⟩ := TunnelConnection.drained_of_readDatagram hr
          exact isClosed_step (by rw [isClosed, hl]; rfl) hs
      | cancelled _ _ =>
          obtain ⟨hcl, -⟩ := step_close hs rfl
          rw [hcl]
          exact Function.update_self ..

lemma bound_run (h : (system τ w).Run ls s) : s.Bound :=
  h.invariant bound_new fun _ _ _ hi hs => hi.step hs

/-! ## Listed tunnels and their readers -/

/-- What is asked of every state: a listed open tunnel has a running reader, and an open tunnel's
reader holds the current token, or a cancelled one and can close its tunnel. -/
structure NotStranded (s : UdpIngress τ w) : Prop where
  reader : ∀ t ∈ s.list.tunnels, s.isClosed t = false → ∃ i, s.reader t = .running i
  bound : ∀ t i, s.isClosed t = false → s.reader t = .running i → s.udpSocket = some i ∨
    s.isCancelled i = true ∧ (step s (.readerCancelled t)).isSome = true

/-- The reader of an open listed tunnel is not handed a datagram too short for its origin, and no
open tunnel is pushed whose reader was. -/
def ReadsWhole (s : UdpIngress τ w) : Label τ → Prop
  | .readDatagram t => t ∈ s.list.tunnels → s.isClosed t = false →
      ∀ bytes ∈ (s.connection t).datagrams.head?, OriginHeaderWhole bytes
  | .list (.push t) => s.isClosed t = false → s.reader t ≠ .panicked
  | _ => True

/-- **A listed open tunnel is stranded only by a panic of its reader.** -/
theorem notStranded_iff (h : (system τ w).Run ls s) : s.NotStranded ↔
    ∀ t ∈ s.list.tunnels, s.isClosed t = false → s.reader t ≠ .panicked := by
  have hb := bound_run h
  constructor
  · intro hn t ht ho hp
    obtain ⟨i, hi⟩ := hn.reader t ht ho
    rw [hp] at hi
    cases hi
  · intro hn
    refine ⟨fun t ht ho => ?_, fun t i _ hi => ?_⟩
    · have hwf : s.WellFormed := (simulation τ w).inv_run h
      have hregister := register_of_assign h t (by rw [hwf.returned_of_mem t ht]; simp)
      cases hr : s.reader t with
      | notSpawned => exact absurd hr (hb.spawned t hregister)
      | running i => exact ⟨i, rfl⟩
      | ended =>
          rw [hb.closed t hr] at ho
          cases ho
      | panicked => exact absurd hr (hn t ht ho)
    · rcases hb.held t i hi with hc | hc
      · exact Or.inl hc
      · exact Or.inr ⟨hc, by simp only [UdpIngress.step, hi, hc, if_true, Option.isSome_some]⟩

lemma open_of_step (hs : step s l = some s') (h : s'.isClosed t = false) :
    s.isClosed t = false := by
  by_contra hc
  rw [Bool.not_eq_false] at hc
  rw [isClosed_step hc hs] at h
  cases h

omit [DecidableEq τ] in
/-- The one datagram a turn of the reader takes. -/
lemma readsWhole_of_returns {bytes : Bytes} {c : TunnelConnection}
    {sent : Option (SocketAddr × Bytes)} (hr : (s.connection t).readDatagram = some (.ok bytes, c))
    (hf : forwardToOrigin bytes = .ret sent) : s.ReadsWhole (.readDatagram t) := by
  intro _ _ b hb
  rw [TunnelConnection.datagrams_of_readDatagram hr] at hb
  rw [← Option.some.inj hb]
  exact (forwardToOrigin_returns_iff bytes).mp ⟨sent, hf⟩

omit [DecidableEq τ] in
lemma readsWhole_of_error {e : Error} {c : TunnelConnection}
    (hr : (s.connection t).readDatagram = some (.error e, c)) : s.ReadsWhole (.readDatagram t) := by
  intro _ _ b hb
  obtain ⟨_, hnil, -⟩ := TunnelConnection.drained_of_readDatagram hr
  rw [hnil] at hb
  cases hb

/-- **A step strands a tunnel exactly when it breaks the condition.** -/
theorem notStranded_step (h : (system τ w).Run ls s) (hn : s.NotStranded)
    (hs : step s l = some s') : s'.NotStranded ↔ s.ReadsWhole l := by
  rw [notStranded_iff (h.snoc hs)]
  have hp := (notStranded_iff h).mp hn
  have hkeep : (∀ u ∈ s'.list.tunnels, u ∈ s.list.tunnels) →
      (∀ u, s'.reader u = .panicked → s.reader u = .panicked) →
      ∀ u ∈ s'.list.tunnels, s'.isClosed u = false → s'.reader u ≠ .panicked :=
    fun hm hr u hu ho hpan => hp u (hm u hu) (open_of_step hs ho) (hr u hpan)
  have hmoved : ∀ {v : τ} {pc : ReaderPc}, pc ≠ .panicked → ∀ u,
      Function.update s.reader v pc u = .panicked → s.reader u = .panicked := by
    intro v pc hpc u hu
    rcases eq_or_ne u v with rfl | hne
    · rw [Function.update_self] at hu
      exact absurd hu hpc
    · rwa [Function.update_of_ne hne] at hu
  cases step_cases hs with
  | @list k list _ hk =>
      have hwf : s.WellFormed := (simulation τ w).inv_run h
      cases k with
      | spawnWatcher t | watcherWakes t =>
          simp only [TunnelList.step, Option.ite_none_right_eq_some, Option.some.injEq] at hk
          obtain ⟨-, rfl⟩ := hk
          exact iff_of_true (hkeep (fun _ hu => hu) fun _ hu => hu) trivial
      | watcherRemoves t =>
          refine iff_of_true (hkeep (fun u hu => ?_) fun _ hu => hu) trivial
          exact ((TunnelList.mem_of_watcherRemoves hwf hk u).mp hu).2
      | push t =>
          simp only [TunnelList.step, Option.ite_none_right_eq_some, Option.some.injEq] at hk
          obtain ⟨-, rfl⟩ := hk
          refine ⟨fun h' => h' t (List.mem_append_right _ (List.mem_singleton_self t)),
            fun hok u hu ho => ?_⟩
          rcases List.mem_append.mp hu with hu | hu
          · exact hp u hu ho
          · rw [List.mem_singleton.mp hu] at ho ⊢
            exact hok ho
  | readerSpawned _ => exact iff_of_true (hkeep (fun _ hu => hu) (hmoved (by simp))) trivial
  | readerCancelled _ _ => exact iff_of_true (hkeep (fun _ hu => hu) (hmoved (by simp))) trivial
  | forwarded _ hr hf =>
      exact iff_of_true (hkeep (fun _ hu => hu) fun _ hu => hu) (readsWhole_of_returns hr hf)
  | readerLeaves _ hr _ =>
      exact iff_of_true (hkeep (fun _ hu => hu) (hmoved (by simp))) (readsWhole_of_error hr)
  | readerStays _ hr _ =>
      exact iff_of_true (hkeep (fun _ hu => hu) fun _ hu => hu) (readsWhole_of_error hr)
  | @readerPanics t i bytes c _ hr hf =>
      have hshort : ¬ OriginHeaderWhole bytes := by
        intro hw
        obtain ⟨sent, hret⟩ := (forwardToOrigin_returns_iff bytes).mpr hw
        rw [hf] at hret
        cases hret
      have hopen : isClosed { s with
          connection := Function.update s.connection t c
          reader := Function.update s.reader t .panicked } = s.isClosed :=
        isClosed_update rfl (by rw [TunnelConnection.lost_of_readDatagram hr])
      constructor
      · intro h' ht ho
        refine absurd (Function.update_self ..) (h' t ht ?_)
        rw [hopen]
        exact ho
      · intro hok u hu ho
        rw [hopen] at ho
        rcases eq_or_ne u t with rfl | hne
        · refine absurd (hok hu ho bytes ?_) hshort
          rw [TunnelConnection.datagrams_of_readDatagram hr]
          rfl
        · refine fun hpan => hp u hu ho ?_
          exact (Function.update_of_ne hne ..).symm.trans hpan
  | _ => exact iff_of_true (hkeep (fun _ hu => hu) fun _ hu => hu) trivial

end UdpIngress

/-- **A restart of the ingress strands no tunnel, and a short datagram does.**  In every run, every
state has a running reader for each listed open tunnel, bound to the current socket or with a
cancelled token, if and only if no such reader is handed a datagram too short for its origin, and
no open tunnel is pushed whose reader was. -/
theorem not_stranded_iff {τ : Type} [DecidableEq τ] {w : ℕ} {ls : List (UdpIngress.Label τ)}
    {s : UdpIngress τ w} (h : (UdpIngress.system τ w).Run ls s) :
    (UdpIngress.system τ w).Always UdpIngress.NotStranded ls ↔
      (UdpIngress.system τ w).RunWithin UdpIngress.ReadsWhole ls s := by
  refine h.always_iff_within ⟨fun t ht => ?_, fun t i _ hi => ?_⟩ fun _ _ _ _ hr hn hs =>
    UdpIngress.notStranded_step hr hn hs
  · simp [UdpIngress.system, UdpIngress.new, TunnelList.new] at ht
  · simp [UdpIngress.system, UdpIngress.new] at hi

/-- The ingress is stopped and started again between the copy of the socket and the push. -/
def restartedMeanwhile : List (UdpIngress.Label ℕ) :=
  [.start, .assignTunnel 7, .stop, .start, .spawnReader 7, .list (.spawnWatcher 7), .list (.push 7)]

/-- The tunnel is pushed with a reader whose token is cancelled. -/
theorem not_stranded_restarted : ∃ s, (UdpIngress.system ℕ 64).Run restartedMeanwhile s ∧
    s.list.tunnels = [7] ∧ s.reader 7 = .running 0 ∧ s.udpSocket = some 1 ∧
    (UdpIngress.system ℕ 64).Always UdpIngress.NotStranded restartedMeanwhile := by
  have h : (UdpIngress.system ℕ 64).RunWithin UdpIngress.ReadsWhole restartedMeanwhile _ :=
    System.runWithin_of_exec rfl ⟨trivial, trivial, trivial, trivial, trivial, trivial,
      fun _ => by simp, trivial⟩
  exact ⟨_, h.run, rfl, rfl, rfl, (not_stranded_iff h.run).mpr h⟩

/-- An empty datagram ends the reader and nothing else. -/
theorem short_datagram_strands : ∃ s, (UdpIngress.system ℕ 64).Run [.start, .assignTunnel 7,
      .spawnReader 7, .list (.spawnWatcher 7), .list (.push 7), .arrive 7 [], .readDatagram 7] s ∧
    s.list.tunnels = [7] ∧ s.isClosed 7 = false ∧ s.reader 7 = .panicked ∧ ¬ s.NotStranded := by
  refine ⟨_, System.run_of_exec rfl, rfl, rfl, rfl, fun h => ?_⟩
  obtain ⟨i, hi⟩ := h.reader 7 List.mem_cons_self rfl
  cases hi

end Siffleux
