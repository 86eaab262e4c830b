import Mathlib.Data.List.Nodup
import Siffleux.Cli.Server

/-!
# Where the ingresses of a server are

What the main thread of the server program has made of the server and of each ingress, told from
where it is.

* `SameCalls` — what the tasks of the clients and of the ingresses leave alone.
* `Sound` — what is listening, started and registered, for the place the thread is at.
* `sound_run` — it holds in every run: one lemma for each kind of step.
-/

namespace Siffleux

open ByteBuf Framing Transition

namespace LaunchServer

variable {w : ℕ} {machine : Machine} {config : ServerConfig} {configs : List IngressConfig}
  {s s' : LaunchServer w} {l : Label} {ls : List Label}

/-! ## What the other tasks leave alone -/

/-- The parts of the system that are the main thread's. -/
structure SameCalls (s s' : ServerSystem w) : Prop where
  stopCall : s'.server.stopCall = s.server.stopCall
  endpoint : s'.server.endpoint = s.server.endpoint
  nextEndpoint : s'.server.nextEndpoint = s.server.nextEndpoint
  ingressById : s'.server.ingressById = s.server.ingressById
  isUp : ∀ k, (s'.ingress k).isUp = (s.ingress k).isUp

lemma stopSound_step {serverId : ServerId} {g g' : ServerSystem w} {l : ServerSystem.Label}
    (h : g.server.StopSound) (hs : g.step serverId l = some g') : g'.server.StopSound := by
  cases ServerSystem.step_cases hs with
  | server _ hg => exact h.step hg
  | assigned _ _ hg => exact h.step hg
  | ingress => exact h

/-- A step of a connection, or of its task. -/
lemma same_connection {serverId : ServerId} {g g' : Server} {l : Server.Label}
    (hl : isTask (.server l) = true) (hs : g.step serverId l = some g') :
    g'.stopCall = g.stopCall ∧ g'.endpoint = g.endpoint ∧ g'.nextEndpoint = g.nextEndpoint ∧
      g'.ingressById = g.ingressById := by
  cases Server.step_cases hs with
  | accepts | handles | loses => exact ⟨rfl, rfl, rfl, rfl⟩
  | _ => cases hl

lemma same_of_task {serverId : ServerId} {g g' : ServerSystem w} {l : ServerSystem.Label}
    (hl : isTask l = true) (hs : g.step serverId l = some g') : SameCalls g g' := by
  cases ServerSystem.step_cases hs with
  | server _ hg =>
      obtain ⟨h₁, h₂, h₃, h₄⟩ := same_connection hl hg
      exact ⟨h₁, h₂, h₃, h₄, fun _ => rfl⟩
  | @assigned k ingress tunnelId r result _ _ _ hg =>
      obtain ⟨h₁, h₂, h₃, h₄⟩ :=
        same_connection (l := .handler k (.assignReturns result)) rfl hg
      exact ⟨h₁, h₂, h₃, h₄, fun _ => rfl⟩
  | @ingress name bl b _ hg =>
      refine ⟨rfl, rfl, rfl, rfl, fun k => ?_⟩
      rw [ServerSystem.setIngress_ingress]
      rcases eq_or_ne k name with rfl | hne
      · rw [Function.update_self]
        exact BoxedIngress.isUp_of_task hg (by simpa [isTask] using hl)
      · rw [Function.update_of_ne hne]

/-- A call of the main thread to an ingress. -/
lemma ingress_step {serverId : ServerId} {g g' : ServerSystem w} {k : ℕ} {l : BoxedIngress.Label}
    (hs : g.step serverId (.ingress k l) = some g') : ∃ b, (g.ingress k).step l = some b ∧
      g' = g.setIngress k b := by
  cases ServerSystem.step_cases hs with
  | ingress _ hg => exact ⟨_, hg, rfl⟩

lemma server_step {serverId : ServerId} {g g' : ServerSystem w} {l : Server.Label}
    (hs : g.step serverId (.server l) = some g') : ∃ b, g.server.step serverId l = some b ∧
      g' = g.withServer b := by
  cases ServerSystem.step_cases hs with
  | server _ hg => exact ⟨_, hg, rfl⟩

/-! ## Where everything is -/

/-- The ingresses whose ids have been found to be new, of `n`. -/
def checked (n : ℕ) : LaunchServerPc → ℕ
  | .starting k | .assigning k => k
  | .certificate | .listening | .panicked => 0
  | _ => n

/-- The sockets that have been bound. -/
def bound (n : ℕ) : LaunchServerPc → ℕ
  | .certificate | .listening | .panicked => 0
  | .starting k => k + 1
  | .assigning k => k + 2
  | _ => n + 1

/-- What holds of the program at any time. -/
structure Sound (machine : Machine) (config : ServerConfig) (configs : List IngressConfig)
    (s : LaunchServer w) : Prop where
  stops : s.system.server.StopSound
  calls : ∀ c, c ≠ 0 → s.system.server.stopCall c = .notCalled
  call : s.pc ≠ .panicked → s.system.server.stopCall 0 = s.pc.stopPc
  endpoint : s.pc ≠ .panicked → s.system.server.endpoint = s.pc.endpoint
  fresh : s.pc = .certificate ∨ s.pc = .listening → s.system.server.nextEndpoint = 0
  up : s.pc ≠ .panicked → ∀ k, (s.system.ingress k).isUp = s.pc.startedAt configs.length k
  place : ∀ k, s.pc = .starting k ∨ s.pc = .assigning k → k < configs.length
  registered : s.pc ≠ .panicked → ∀ k ingressConfig, k < s.pc.assigned configs.length →
    configs[k]? = some ingressConfig →
    s.system.server.ingressById ingressConfig.id = some (ingressConfig.ingress k)
  only : s.pc ≠ .panicked → ∀ id, s.system.server.ingressById id ≠ none → ∃ k ingressConfig,
    k < s.pc.assigned configs.length ∧ configs[k]? = some ingressConfig ∧ ingressConfig.id = id
  distinct : ((configs.take (checked configs.length s.pc)).map IngressConfig.id).Nodup
  left : ∀ left, s.pc = .draining left → left.Nodup ∧ ∀ k ∈ left, k < configs.length
  certificate : s.pc ≠ .certificate → s.pc ≠ .panicked → machine.certifies config.tls = true
  sockets : ∀ n < bound configs.length s.pc, machine.canBind (config.bindings configs) n = true

lemma sound_new : Sound machine config configs (new w configs) where
  stops := Server.stopSound_new
  calls _ _ := rfl
  call _ := rfl
  endpoint _ := rfl
  fresh _ := rfl
  up _ k := by
    show (BoxedIngress.new w (kinds configs k)).isUp = false
    cases kinds configs k <;> rfl
  place _ h := by simp [new] at h
  registered _ _ _ h := absurd h (Nat.not_lt_zero _)
  only _ _ h := absurd rfl h
  distinct := List.nodup_nil
  left _ h := by simp [new] at h
  certificate h := absurd rfl h
  sockets _ h := absurd h (Nat.not_lt_zero _)

lemma entry_cases {k : ℕ} (hk : k ≤ configs.length) :
    (entry configs k = .starting k ∧ k < configs.length) ∨
      (entry configs k = .waiting ∧ configs.length = k) := by
  rw [entry]
  split_ifs with hlt
  · exact Or.inl ⟨rfl, hlt⟩
  · exact Or.inr ⟨rfl, by omega⟩

/-- The main thread goes on to the next ingress. -/
lemma Sound.enter {sys : ServerSystem w} {k : ℕ} (hk : k ≤ configs.length)
    (hstops : sys.server.StopSound) (hcalls : ∀ c, sys.server.stopCall c = .notCalled)
    (hendpoint : sys.server.endpoint = some 0)
    (hup : ∀ j, (sys.ingress j).isUp = decide (j < k))
    (hregistered : ∀ j ingressConfig, j < k → configs[j]? = some ingressConfig →
      sys.server.ingressById ingressConfig.id = some (ingressConfig.ingress j))
    (honly : ∀ id, sys.server.ingressById id ≠ none → ∃ j ingressConfig, j < k ∧
      configs[j]? = some ingressConfig ∧ ingressConfig.id = id)
    (hdistinct : ((configs.take k).map IngressConfig.id).Nodup)
    (hcertificate : machine.certifies config.tls = true)
    (hsockets : ∀ n < k + 1, machine.canBind (config.bindings configs) n = true) :
    Sound machine config configs ⟨entry configs k, sys⟩ := by
  rcases entry_cases hk with ⟨he, hlt⟩ | ⟨he, hn⟩
  · rw [he]
    exact ⟨hstops, fun c _ => hcalls c, fun _ => hcalls 0, fun _ => hendpoint, by simp,
      fun _ => hup, by simp [hlt], fun _ => hregistered, fun _ => honly, hdistinct, by simp,
      fun _ _ => hcertificate, hsockets⟩
  · rw [he]
    subst hn
    exact ⟨hstops, fun c _ => hcalls c, fun _ => hcalls 0, fun _ => hendpoint, by simp,
      fun _ => hup, by simp, fun _ => hregistered, fun _ => honly, hdistinct, by simp,
      fun _ _ => hcertificate, hsockets⟩

/-- All calls of `stop` are still to come. -/
lemma Sound.not_called (h : Sound machine config configs s) (hpc : s.pc.stopPc = .notCalled)
    (hp : s.pc ≠ .panicked) (c : ℕ) : s.system.server.stopCall c = .notCalled := by
  rcases eq_or_ne c 0 with rfl | hne
  · rw [h.call hp, hpc]
  · exact h.calls c hne

/-- A step of the call of `stop`. -/
lemma calls_setStop {f : ℕ → ServerStopPc} (pc : ServerStopPc)
    (h : ∀ c, c ≠ 0 → f c = .notCalled) :
    (∀ c, c ≠ 0 → Function.update f 0 pc c = .notCalled) ∧ Function.update f 0 pc 0 = pc :=
  ⟨fun c hne => (Function.update_of_ne hne ..).trans (h c hne), Function.update_self ..⟩

/-- The ingresses in the registry are all there are. -/
lemma Sound.registered_eq (h : Sound machine config configs s) (hpc : s.pc = .locking) :
    s.registered configs = List.range configs.length := by
  have hp : s.pc ≠ .panicked := by simp [hpc]
  rw [LaunchServer.registered, List.filter_eq_self]
  intro k hk
  have hlt := List.mem_range.mp hk
  have hreg := h.registered hp k _ (by rw [hpc]; exact hlt) (List.getElem?_eq_getElem hlt)
  simp [List.getElem?_eq_getElem hlt, hreg]

/-! ## One lemma for each kind of step -/

/-- A panic ends the thread, whatever it left behind. -/
lemma Sound.panic (h : Sound machine config configs s) :
    Sound machine config configs { s with pc := .panicked } :=
  ⟨h.stops, h.calls, by simp, by simp, by simp, by simp, by simp, by simp, by simp, List.nodup_nil,
    by simp, by simp, fun _ hn => absurd hn (Nat.not_lt_zero _)⟩

lemma Sound.certified (h : Sound machine config configs s) (hpc : s.pc = .certificate)
    (hm : machine.certifies config.tls = true) :
    Sound machine config configs { s with pc := .listening } := by
  obtain ⟨pc, sys⟩ := s
  obtain rfl : pc = .certificate := hpc
  exact ⟨h.stops, h.calls, fun _ => h.call (by simp), fun _ => h.endpoint (by simp),
    fun _ => h.fresh (Or.inl rfl), fun _ => h.up (by simp), by simp,
    fun _ => h.registered (by simp), fun _ => h.only (by simp), h.distinct, by simp,
    fun _ _ => hm, h.sockets⟩

lemma Sound.listened (h : Sound machine config configs s) (hpc : s.pc = .listening)
    (hm : machine.canBind (config.bindings configs) 0 = true) {g : ServerSystem w}
    (hg : s.system.step config.id (.server .listen) = some g) :
    Sound machine config configs ⟨entry configs 0, g⟩ := by
  obtain ⟨pc, sys⟩ := s
  obtain rfl : pc = .listening := hpc
  have hstops := stopSound_step h.stops hg
  obtain ⟨b, hb, rfl⟩ := server_step hg
  cases Server.step_cases hb
  refine Sound.enter (Nat.zero_le _) hstops (h.not_called rfl (by simp))
    (congrArg some (h.fresh (Or.inr rfl))) (h.up (by simp))
    (fun j _ hj => absurd hj (Nat.not_lt_zero j)) (fun id hid => ?_) List.nodup_nil
    (h.certificate (by simp) (by simp)) (fun n hn => ?_)
  · obtain ⟨k, _, hk, -⟩ := h.only (by simp) id hid
    exact absurd hk (Nat.not_lt_zero k)
  · obtain rfl : n = 0 := by omega
    exact hm

lemma Sound.started (h : Sound machine config configs s) {k : ℕ} (hpc : s.pc = .starting k)
    (hm : machine.canBind (config.bindings configs) (k + 1) = true) {g : ServerSystem w}
    (hg : s.system.step config.id (.ingress k (s.system.ingress k).start) = some g) :
    Sound machine config configs ⟨.assigning k, g⟩ := by
  obtain ⟨pc, sys⟩ := s
  obtain rfl : pc = .starting k := hpc
  have hk := h.place k (Or.inl rfl)
  have hup := h.up (by simp)
  have hstops := stopSound_step h.stops hg
  obtain ⟨b, hb, rfl⟩ := ingress_step hg
  refine ⟨hstops, h.calls, fun _ => h.call (by simp), fun _ => h.endpoint (by simp), by simp,
    fun _ j => ?_, by simp [hk], fun _ => h.registered (by simp), fun _ => h.only (by simp),
    h.distinct, by simp, fun _ _ => h.certificate (by simp) (by simp), fun n hn => ?_⟩
  · rw [ServerSystem.setIngress_ingress]
    rcases eq_or_ne j k with rfl | hne
    · rw [Function.update_self, BoxedIngress.isUp_of_start hb]
      simp [LaunchServerPc.startedAt]
    · rw [Function.update_of_ne hne]
      refine (hup j).trans ?_
      simp only [LaunchServerPc.startedAt, decide_eq_decide]
      omega
  · rcases Nat.lt_succ_iff_lt_or_eq.mp hn with hlt | rfl
    · exact h.sockets n hlt
    · exact hm

/-- The id of an ingress that is being assigned is a new one. -/
lemma Sound.ne_of_assigned (h : Sound machine config configs s) {k : ℕ}
    {ingressConfig : IngressConfig} (hpc : s.pc = .assigning k)
    (hn : s.system.server.ingressById ingressConfig.id = none) (j : ℕ) (other : IngressConfig)
    (hj : j < k) (ho : configs[j]? = some other) : other.id ≠ ingressConfig.id := by
  intro heq
  have hreg := h.registered (by simp [hpc]) j other (by rw [hpc]; exact hj) ho
  rw [heq, hn] at hreg
  cases hreg

lemma Sound.assign (h : Sound machine config configs s) {k : ℕ} {ingressConfig : IngressConfig}
    (hpc : s.pc = .assigning k) (hc : configs[k]? = some ingressConfig)
    (hn : s.system.server.ingressById ingressConfig.id = none) {g : ServerSystem w}
    (hg : s.system.step config.id
      (.server (.assignIngress (ingressConfig.ingress k))) = some g) :
    Sound machine config configs ⟨entry configs (k + 1), g⟩ := by
  have hnew := h.ne_of_assigned hpc hn
  obtain ⟨pc, sys⟩ := s
  obtain rfl : pc = .assigning k := hpc
  have hstops := stopSound_step h.stops hg
  obtain ⟨b, hb, rfl⟩ := server_step hg
  cases Server.step_cases hb
  have hid : (ingressConfig.ingress k).id = ingressConfig.id := rfl
  refine Sound.enter (h.place k (Or.inr rfl)) hstops (h.not_called rfl (by simp))
    (h.endpoint (by simp)) (h.up (by simp)) (fun j other hj ho => ?_) (fun id hmem => ?_) ?_
    (h.certificate (by simp) (by simp)) h.sockets
  · show Function.update _ _ _ other.id = _
    rcases Nat.lt_succ_iff_lt_or_eq.mp hj with hlt | rfl
    · rw [hid, Function.update_of_ne (hnew j other hlt ho)]
      exact h.registered (by simp) j other hlt ho
    · obtain rfl := Option.some.inj (hc.symm.trans ho)
      rw [hid, Function.update_self]
  · have hmem' : Function.update sys.server.ingressById (ingressConfig.ingress k).id
        (some (ingressConfig.ingress k)) id ≠ none := hmem
    rcases eq_or_ne id ingressConfig.id with rfl | hne
    · exact ⟨k, ingressConfig, Nat.lt_succ_self k, hc, rfl⟩
    · rw [hid, Function.update_of_ne hne] at hmem'
      obtain ⟨j, other, hj, ho⟩ := h.only (by simp) id hmem'
      exact ⟨j, other, Nat.lt_succ_of_lt hj, ho⟩
  · rw [List.take_add_one, hc, List.map_append]
    refine List.Nodup.append h.distinct (List.nodup_singleton _) ?_
    simp only [List.disjoint_singleton, Option.toList_some, List.map_cons, List.map_nil]
    intro hmem
    obtain ⟨other, ho, heq⟩ := List.mem_map.mp hmem
    obtain ⟨j, hj, rfl⟩ := List.mem_take_iff_getElem.mp ho
    exact hnew j _ (by omega) (List.getElem?_eq_getElem (by omega)) heq

lemma Sound.signal (h : Sound machine config configs s) (hpc : s.pc = .waiting) :
    Sound machine config configs { s with pc := .stopping } := by
  obtain ⟨pc, sys⟩ := s
  obtain rfl : pc = .waiting := hpc
  exact ⟨h.stops, h.calls, fun _ => h.call (by simp), fun _ => h.endpoint (by simp), by simp,
    fun _ => h.up (by simp), by simp, fun _ => h.registered (by simp),
    fun _ => h.only (by simp), h.distinct, by simp,
    fun _ _ => h.certificate (by simp) (by simp), h.sockets⟩

/-- `Server::stop` takes the endpoint. -/
lemma Sound.taken (h : Sound machine config configs s) (hpc : s.pc = .stopping)
    {g : ServerSystem w} (hg : s.system.step config.id (.server (.stopTake 0)) = some g) :
    Sound machine config configs ⟨.locking, g⟩ := by
  obtain ⟨pc, sys⟩ := s
  obtain rfl : pc = .stopping := hpc
  have hstops := stopSound_step h.stops hg
  obtain ⟨b, hb, rfl⟩ := server_step hg
  have hstored : sys.server.endpoint = some 0 := h.endpoint (by simp)
  cases Server.step_cases hb with
  | refuses _ _ he =>
      rw [hstored] at he
      cases he
  | takes _ _ he =>
      obtain rfl := Option.some.inj (hstored.symm.trans he)
      obtain ⟨hcalls, hcall⟩ := calls_setStop (.lockRegistry 0) h.calls
      exact ⟨hstops, hcalls, fun _ => hcall, fun _ => rfl, by simp, fun _ => h.up (by simp),
        by simp, fun _ => h.registered (by simp), fun _ => h.only (by simp), h.distinct, by simp,
        fun _ _ => h.certificate (by simp) (by simp), h.sockets⟩

/-- It locks the registry, and gets every ingress once. -/
lemma Sound.locked (h : Sound machine config configs s) {order : List ℕ} (hpc : s.pc = .locking)
    (ho : order.Perm (s.registered configs)) {g : ServerSystem w}
    (hg : s.system.step config.id (.server (.stopLockRegistry 0)) = some g) :
    Sound machine config configs ⟨.draining order, g⟩ := by
  rw [h.registered_eq hpc] at ho
  obtain ⟨pc, sys⟩ := s
  obtain rfl : pc = .locking := hpc
  have hup := h.up (by simp)
  have hstops := stopSound_step h.stops hg
  obtain ⟨b, hb, rfl⟩ := server_step hg
  cases Server.step_cases hb with
  | locks hce =>
      obtain rfl := ServerStopPc.lockRegistry.inj (hce.symm.trans (h.call (by simp)))
      obtain ⟨hcalls, hcall⟩ := calls_setStop (.draining 0) h.calls
      refine ⟨hstops, hcalls, fun _ => hcall, fun _ => h.endpoint (by simp), by simp,
        fun _ k => (hup k).trans ?_, by simp, fun _ => h.registered (by simp),
        fun _ => h.only (by simp), h.distinct, ?_, fun _ _ => h.certificate (by simp) (by simp),
        h.sockets⟩
      · simp [LaunchServerPc.startedAt, ho.mem_iff]
      · intro left hl
        simp only [LaunchServerPc.draining.injEq] at hl
        subst hl
        exact ⟨ho.nodup_iff.mpr List.nodup_range, fun k hk =>
          List.mem_range.mp (ho.mem_iff.mp hk)⟩

/-- Ingress `k` is down, and nothing else has changed. -/
lemma Sound.down (h : Sound machine config configs s) {k : ℕ} {left : List ℕ}
    (hpc : s.pc = .draining (k :: left)) {sys : ServerSystem w}
    (hserver : sys.server = s.system.server)
    (hsame : ∀ j, j ≠ k → sys.ingress j = s.system.ingress j)
    (hk : (sys.ingress k).isUp = false) :
    Sound machine config configs ⟨.draining left, sys⟩ := by
  obtain ⟨pc, sys₀⟩ := s
  obtain rfl : pc = .draining (k :: left) := hpc
  obtain ⟨hnodup, hlt⟩ := h.left _ rfl
  rw [List.nodup_cons] at hnodup
  refine ⟨by rw [hserver]; exact h.stops, by rw [hserver]; exact h.calls,
    fun _ => by rw [hserver]; exact h.call (by simp),
    fun _ => by rw [hserver]; exact h.endpoint (by simp), by simp, fun _ j => ?_, by simp,
    fun _ => by rw [hserver]; exact h.registered (by simp),
    fun _ => by rw [hserver]; exact h.only (by simp), h.distinct, ?_,
    fun _ _ => h.certificate (by simp) (by simp), h.sockets⟩
  · show (sys.ingress j).isUp = decide (j ∈ left)
    rcases eq_or_ne j k with rfl | hne
    · rw [hk, decide_eq_false hnodup.1]
    · rw [hsame j hne]
      refine (h.up (by simp) j).trans ?_
      simp [LaunchServerPc.startedAt, hne]
  · intro left' hl
    simp only [LaunchServerPc.draining.injEq] at hl
    subst hl
    exact ⟨hnodup.2, fun j hj => hlt j (List.mem_cons_of_mem k hj)⟩

/-- The next ingress is stopped, or had nothing to stop. -/
lemma Sound.stopped (h : Sound machine config configs s) {k : ℕ} {left : List ℕ}
    (hpc : s.pc = .draining (k :: left)) :
    Sound machine config configs ⟨.draining left, (s.system.step config.id
      (.ingress k (s.system.ingress k).stop)).getD s.system⟩ := by
  cases hg : s.system.step config.id (.ingress k (s.system.ingress k).stop) with
  | some g =>
      obtain ⟨b, hb, rfl⟩ := ingress_step hg
      refine h.down hpc rfl (fun j hne => Function.update_of_ne hne ..) ?_
      rw [Option.getD_some, ServerSystem.setIngress_ingress, Function.update_self]
      exact BoxedIngress.isUp_of_stop hb
  | none =>
      have hm : s.system.mayRun k (s.system.ingress k).stop = true := by
        rw [ServerSystem.mayRun]
        cases s.system.ingress k <;> rfl
      have hb : (s.system.ingress k).step (s.system.ingress k).stop = none := by
        simpa [ServerSystem.step, hm] using hg
      exact h.down hpc rfl (fun _ _ => rfl) (BoxedIngress.isUp_of_not_stop hb)

/-- The registry is empty behind the last of them. -/
lemma Sound.drained (h : Sound machine config configs s) (hpc : s.pc = .draining [])
    {g : ServerSystem w} (hg : s.system.step config.id (.server (.stopDrained 0)) = some g) :
    Sound machine config configs ⟨.closing, g⟩ := by
  obtain ⟨pc, sys⟩ := s
  obtain rfl : pc = .draining [] := hpc
  have hup := h.up (by simp)
  have hstops := stopSound_step h.stops hg
  obtain ⟨b, hb, rfl⟩ := server_step hg
  cases Server.step_cases hb with
  | drains hce =>
      obtain rfl := ServerStopPc.draining.inj (hce.symm.trans (h.call (by simp)))
      obtain ⟨hcalls, hcall⟩ := calls_setStop (.close 0) h.calls
      exact ⟨hstops, hcalls, fun _ => hcall, fun _ => h.endpoint (by simp), by simp,
        fun _ => hup, by simp, fun _ k _ hk => absurd hk (Nat.not_lt_zero k),
        fun _ id hid => absurd rfl hid, h.distinct, by simp,
        fun _ _ => h.certificate (by simp) (by simp), h.sockets⟩

lemma Sound.closed (h : Sound machine config configs s) (hpc : s.pc = .closing)
    {g : ServerSystem w} (hg : s.system.step config.id (.server (.stopClose 0)) = some g) :
    Sound machine config configs ⟨.idling, g⟩ := by
  obtain ⟨pc, sys⟩ := s
  obtain rfl : pc = .closing := hpc
  have hstops := stopSound_step h.stops hg
  obtain ⟨b, hb, rfl⟩ := server_step hg
  cases Server.step_cases hb with
  | closes hce =>
      obtain rfl := ServerStopPc.close.inj (hce.symm.trans (h.call (by simp)))
      obtain ⟨hcalls, hcall⟩ := calls_setStop .waitIdle h.calls
      exact ⟨hstops, hcalls, fun _ => hcall, fun _ => h.endpoint (by simp), by simp,
        fun _ => h.up (by simp), by simp, fun _ => h.registered (by simp),
        fun _ => h.only (by simp), h.distinct, by simp,
        fun _ _ => h.certificate (by simp) (by simp), h.sockets⟩

lemma Sound.returned (h : Sound machine config configs s) (hpc : s.pc = .idling)
    {g : ServerSystem w} (hg : s.system.step config.id (.server (.stopReturns 0)) = some g) :
    Sound machine config configs ⟨.returned, g⟩ := by
  obtain ⟨pc, sys⟩ := s
  obtain rfl : pc = .idling := hpc
  have hstops := stopSound_step h.stops hg
  obtain ⟨b, hb, rfl⟩ := server_step hg
  cases Server.step_cases hb
  obtain ⟨hcalls, hcall⟩ := calls_setStop .returned h.calls
  exact ⟨hstops, hcalls, fun _ => hcall, fun _ => h.endpoint (by simp), by simp,
    fun _ => h.up (by simp), by simp, fun _ => h.registered (by simp),
    fun _ => h.only (by simp), h.distinct, by simp,
    fun _ _ => h.certificate (by simp) (by simp), h.sockets⟩

/-- The other tasks leave alone what is the main thread's. -/
lemma Sound.task (h : Sound machine config configs s) {l : ServerSystem.Label}
    {g : ServerSystem w} (hl : isTask l = true) (hg : s.system.step config.id l = some g) :
    Sound machine config configs { s with system := g } := by
  have hsame := same_of_task hl hg
  refine ⟨stopSound_step h.stops hg, fun c hc => ?_, fun hp => ?_, fun hp => ?_, fun hf => ?_,
    fun hp k => ?_, h.place, fun hp => ?_, fun hp => ?_, h.distinct, h.left, h.certificate,
    h.sockets⟩
  · rw [hsame.stopCall]
    exact h.calls c hc
  · rw [hsame.stopCall]
    exact h.call hp
  · rw [hsame.endpoint]
    exact h.endpoint hp
  · rw [hsame.nextEndpoint]
    exact h.fresh hf
  · rw [hsame.isUp]
    exact h.up hp k
  · rw [hsame.ingressById]
    exact h.registered hp
  · rw [hsame.ingressById]
    exact h.only hp

theorem Sound.step (h : Sound machine config configs s)
    (hs : LaunchServer.step machine config configs s l = some s') :
    Sound machine config configs s' := by
  cases step_cases hs with
  | certified hpc hm => exact h.certified hpc hm
  | uncertified | unbound | notStarted | assignPanics | notTaken => exact h.panic
  | listened hpc hm hg => exact h.listened hpc hm hg
  | started hpc hm hg => exact h.started hpc hm hg
  | assigned hpc hc hn hg => exact h.assign hpc hc hn hg
  | signalled hpc => exact h.signal hpc
  | taken hpc hg => exact h.taken hpc hg
  | locked hpc ho hg => exact h.locked hpc ho hg
  | stopped hpc => exact h.stopped hpc
  | drained hpc hg => exact h.drained hpc hg
  | closed hpc hg => exact h.closed hpc hg
  | returned hpc hg => exact h.returned hpc hg
  | task hl _ hg => exact h.task hl hg

theorem sound_run (h : (program w machine config configs).Run ls s) :
    Sound machine config configs s :=
  h.invariant (P := Sound machine config configs) sound_new fun _ _ _ hi hs => hi.step hs

end LaunchServer

end Siffleux
