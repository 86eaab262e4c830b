import Siffleux.Cli.SiffleuxConfig
import Siffleux.Server.Assignment
import Siffleux.Server.Ingress.Listening
import Siffleux.Server.Stop

/-!
# The server program

`launch_server_with_ingresses` of `siffleux-cli/src/server.rs`: the main thread loads its
certificate, listens for clients, starts the ingresses of the configuration and assigns them one
after the other, waits for a signal, and stops the server.  The tasks of the clients' connections
and of the ingresses run beside it, and go down with the process when the main thread returns or
panics.

An ingress is named by its place in the configuration.  The main thread makes the only call of
`Server::stop`, call 0, and the only calls of `start` and `stop` of the ingresses.

What lies outside is a `Machine`: whether the certificate can be had, and which sockets can be bound
beside which.  The panic of a task ends that task: panics unwind, as in dev and test builds (the
release profile of the repository aborts the process instead).

`LaunchServer.step_cases` is the step, inverted.
-/

namespace Siffleux

open ByteBuf Framing Transition

/-! ## The ingresses -/

namespace BoxedIngress

variable {w : ℕ} {g g' : BoxedIngress w} {l : Label}

def start : BoxedIngress w → Label
  | .tcp _ => .tcp .start
  | .udp _ => .udp .start

def stop : BoxedIngress w → Label
  | .tcp _ => .tcp .stop
  | .udp _ => .udp .stop

/-- A `start` would be refused. -/
def isUp : BoxedIngress w → Bool
  | .tcp s => s.tcpListener.isSome
  | .udp s => s.udpSocket.isSome

/-- The calls of the main thread. -/
def isCall : Label → Bool
  | .tcp .start | .tcp .stop | .udp .start | .udp .stop => true
  | _ => false

lemma isUp_of_task (hs : g.step l = some g') (hl : isCall l = false) : g'.isUp = g.isUp := by
  cases g with
  | tcp s =>
      cases l with
      | udp l => cases hs
      | tcp l =>
          simp only [BoxedIngress.step, Option.map_eq_some_iff] at hs
          obtain ⟨s', hs', rfl⟩ := hs
          rcases TcpIngress.tcpListener_step hs' with ⟨rfl, -⟩ | ⟨rfl, -⟩ | ⟨-, -, he⟩
          · cases hl
          · cases hl
          · rw [isUp, isUp, he]
  | udp s =>
      cases l with
      | tcp l => cases hs
      | udp l =>
          simp only [BoxedIngress.step, Option.map_eq_some_iff] at hs
          obtain ⟨s', hs', rfl⟩ := hs
          cases UdpIngress.step_cases hs' with
          | started | stopped => cases hl
          | _ => rfl

lemma isUp_of_start (hs : g.step g.start = some g') : g'.isUp = true := by
  cases g with
  | tcp s =>
      simp only [BoxedIngress.step, start, TcpIngress.step, Option.map_eq_some_iff,
        Option.ite_none_right_eq_some, Option.some.injEq] at hs
      obtain ⟨-, ⟨-, rfl⟩, rfl⟩ := hs
      rfl
  | udp s =>
      simp only [BoxedIngress.step, start, UdpIngress.step, Option.map_eq_some_iff,
        Option.ite_none_right_eq_some, Option.some.injEq] at hs
      obtain ⟨-, ⟨-, rfl⟩, rfl⟩ := hs
      rfl

lemma start_enabled (h : g.isUp = false) : (g.step g.start).isSome = true := by
  cases g with
  | tcp s =>
      have hn : s.tcpListener = none := Option.not_isSome_iff_eq_none.mp (by simpa [isUp] using h)
      simp [BoxedIngress.step, start, TcpIngress.step, hn]
  | udp s =>
      have hn : s.udpSocket = none := Option.not_isSome_iff_eq_none.mp (by simpa [isUp] using h)
      simp [BoxedIngress.step, start, UdpIngress.step, hn]

lemma isUp_of_stop (hs : g.step g.stop = some g') : g'.isUp = false := by
  cases g with
  | tcp s =>
      simp only [BoxedIngress.step, stop, TcpIngress.step, Option.map_eq_some_iff,
        Option.ite_none_left_eq_some, Option.some.injEq] at hs
      obtain ⟨-, ⟨-, rfl⟩, rfl⟩ := hs
      rfl
  | udp s =>
      simp only [BoxedIngress.step, stop, UdpIngress.step, Option.map_eq_some_iff] at hs
      obtain ⟨u, hu, rfl⟩ := hs
      split at hu
      · rw [← Option.some.inj hu]
        rfl
      · cases hu

/-- A `stop` fails where there is nothing to stop. -/
lemma isUp_of_not_stop (hs : g.step g.stop = none) : g.isUp = false := by
  cases g with
  | tcp s =>
      simp only [BoxedIngress.step, stop, TcpIngress.step, Option.map_eq_none_iff] at hs
      split_ifs at hs with hn
      rw [isUp, hn]
      rfl
  | udp s =>
      simp only [BoxedIngress.step, stop, UdpIngress.step, Option.map_eq_none_iff] at hs
      split at hs
      · cases hs
      · rename_i hn
        rw [isUp, hn]
        rfl

end BoxedIngress

/-! ## Where the main thread is -/

/-- Where the main thread is.  From `stopping` to `idling` it is in `Server::stop`; `draining` has
the ingresses that are not stopped yet, the one that is being stopped first. -/
inductive LaunchServerPc where
  | certificate
  | listening
  | starting (k : ℕ)
  | assigning (k : ℕ)
  | waiting
  | stopping
  | locking
  | draining (left : List ℕ)
  | closing
  | idling
  | returned
  | panicked
  deriving DecidableEq

namespace LaunchServerPc

/-- The process has ended. -/
def hasExited : LaunchServerPc → Bool
  | returned | panicked => true
  | _ => false

/-- All ingresses have been brought up. -/
def isUp : LaunchServerPc → Bool
  | certificate | listening | starting _ | assigning _ | panicked => false
  | _ => true

/-- The signal has come. -/
def isStopping : LaunchServerPc → Bool
  | stopping | locking | draining _ | closing | idling => true
  | _ => false

/-- Where the call of `Server::stop` is. -/
def stopPc : LaunchServerPc → ServerStopPc
  | locking => .lockRegistry 0
  | draining _ => .draining 0
  | closing => .close 0
  | idling => .waitIdle
  | returned => .returned
  | _ => .notCalled

/-- The endpoint that is stored. -/
def endpoint : LaunchServerPc → Option ℕ
  | starting _ | assigning _ | waiting | stopping => some 0
  | _ => none

/-- The ingresses that have been assigned, of `n`. -/
def assigned (n : ℕ) : LaunchServerPc → ℕ
  | starting k | assigning k => k
  | waiting | stopping | locking | draining _ => n
  | _ => 0

/-- Ingress `k` of `n` has been started and not stopped. -/
def startedAt (n k : ℕ) : LaunchServerPc → Bool
  | starting j => k < j
  | assigning j => k < j + 1
  | waiting | stopping | locking => k < n
  | draining left => k ∈ left
  | _ => false

end LaunchServerPc

namespace IngressConfig

def kind : IngressConfig → IngressKind
  | tcp _ => .tcp
  | udp _ => .udp

/-- What the server gets to know of the ingress in place `k`. -/
def ingress (config : IngressConfig) (k : ℕ) : Ingress := ⟨k, config.id, config.authKey⟩

end IngressConfig

/-! ## The machine -/

/-- A socket that the program binds. -/
inductive Binding where
  | endpoint (addr : SocketAddr)
  | tcpIngress (addr : SocketAddr)
  | udpIngress (addr : SocketAddr)
  deriving DecidableEq

/-- A UDP ingress makes its socket with `Domain::IPV4`. -/
def Binding.fits : Binding → Bool
  | udpIngress (.v6 ..) => false
  | _ => true

def IngressConfig.binding : IngressConfig → Binding
  | tcp config => .tcpIngress config.addr
  | udp config => .udpIngress config.addr

/-- What the program finds on its machine.  `binds before socket` says that the socket may be bound
beside those that the program has bound before it. -/
structure Machine where
  certifies : TlsConfig → Bool
  binds : List Binding → Binding → Bool

/-- The sockets of a server in the order it binds them: for its clients, and for each ingress. -/
def ServerConfig.bindings (config : ServerConfig) (configs : List IngressConfig) : List Binding :=
  .endpoint config.clientAddr :: configs.map IngressConfig.binding

/-- Socket `n` of a program may be bound. -/
def Machine.canBind (machine : Machine) (sockets : List Binding) (n : ℕ) : Bool :=
  match sockets[n]? with
  | some socket => socket.fits && machine.binds (sockets.take n) socket
  | none => false

/-! ## The main thread -/

structure LaunchServer (w : ℕ) where
  pc : LaunchServerPc
  system : ServerSystem w

namespace LaunchServer

variable {w : ℕ}

/-- The next ingress, or the signal when there is none. -/
def entry (configs : List IngressConfig) (k : ℕ) : LaunchServerPc :=
  if k < configs.length then .starting k else .waiting

/-- The kinds of the configured ingresses, by their place. -/
def kinds (configs : List IngressConfig) (k : ℕ) : IngressKind :=
  (configs[k]?.map IngressConfig.kind).getD .tcp

def new (w : ℕ) (configs : List IngressConfig) : LaunchServer w :=
  ⟨.certificate, .new w (kinds configs)⟩

inductive Label where
  | certificate (ok : Bool)
  | listen (bound : Bool)
  | start (bound : Bool)
  | assign
  | signal
  | takeEndpoint
  | lockRegistry (order : List ℕ)
  | stopIngress
  | drained
  | close
  | returns
  | task (l : ServerSystem.Label)

/-- The steps of the other tasks, and of the transport. -/
def isTask : ServerSystem.Label → Bool
  | .server (.incoming _ _) | .server (.handler _ _) | .server (.lose _ _) => true
  | .server _ => false
  | .assignReturns _ => true
  | .ingress _ l => !BoxedIngress.isCall l

/-- The main thread goes on to `pc`, with what became of the system if it could go on. -/
def goOn (pc : LaunchServerPc) (sys : Option (ServerSystem w)) : Option (LaunchServer w) :=
  sys.map fun g => ⟨pc, g⟩

/-- The ingresses in the registry. -/
def registered (configs : List IngressConfig) (s : LaunchServer w) : List ℕ :=
  (List.range configs.length).filter fun k => match configs[k]? with
    | some config => s.system.server.ingressById config.id = some (config.ingress k)
    | none => false

/-- Something that may always fail, and is unwrapped; `can` says whether it may also succeed. -/
def attempt (s : LaunchServer w) (can : Bool) (next : Option (LaunchServer w)) :
    Bool → Option (LaunchServer w)
  | true => if can then next else none
  | false => some { s with pc := .panicked }

/-- An error that is unwrapped is a panic; the errors of the ingresses' `stop` are logged. -/
def step (machine : Machine) (config : ServerConfig) (configs : List IngressConfig)
    (s : LaunchServer w) : Label → Option (LaunchServer w)
  | .certificate ok =>
      match s.pc with
      | .certificate =>
          s.attempt (machine.certifies config.tls) (some { s with pc := .listening }) ok
      | _ => none
  | .listen bound =>
      match s.pc with
      | .listening => s.attempt (machine.canBind (config.bindings configs) 0)
          (goOn (entry configs 0) (s.system.step config.id (.server .listen))) bound
      | _ => none
  | .start bound =>
      match s.pc with
      | .starting k => s.attempt (machine.canBind (config.bindings configs) (k + 1))
          (goOn (.assigning k)
            (s.system.step config.id (.ingress k (s.system.ingress k).start))) bound
      | _ => none
  | .assign =>
      match s.pc with
      | .assigning k =>
          match configs[k]? with
          | some ingressConfig =>
              match s.system.server.ingressById ingressConfig.id with
              | some _ => some { s with pc := .panicked }
              | none => goOn (entry configs (k + 1))
                  (s.system.step config.id (.server (.assignIngress (ingressConfig.ingress k))))
          | none => none
      | _ => none
  | .signal =>
      match s.pc with
      | .waiting => some { s with pc := .stopping }
      | _ => none
  | .takeEndpoint =>
      match s.pc with
      | .stopping =>
          match s.system.server.endpoint with
          | some _ => goOn .locking (s.system.step config.id (.server (.stopTake 0)))
          | none => some { s with pc := .panicked }
      | _ => none
  | .lockRegistry order =>
      match s.pc with
      | .locking =>
          if order.isPerm (s.registered configs) then
            goOn (.draining order) (s.system.step config.id (.server (.stopLockRegistry 0)))
          else none
      | _ => none
  | .stopIngress =>
      match s.pc with
      | .draining (k :: left) =>
          some ⟨.draining left, (s.system.step config.id
            (.ingress k (s.system.ingress k).stop)).getD s.system⟩
      | _ => none
  | .drained =>
      match s.pc with
      | .draining [] => goOn .closing (s.system.step config.id (.server (.stopDrained 0)))
      | _ => none
  | .close =>
      match s.pc with
      | .closing => goOn .idling (s.system.step config.id (.server (.stopClose 0)))
      | _ => none
  | .returns =>
      match s.pc with
      | .idling => goOn .returned (s.system.step config.id (.server (.stopReturns 0)))
      | _ => none
  | .task l =>
      if isTask l && !s.pc.hasExited then goOn s.pc (s.system.step config.id l) else none

def program (w : ℕ) (machine : Machine) (config : ServerConfig) (configs : List IngressConfig) :
    System (LaunchServer w) Label := ⟨new w configs, step machine config configs⟩

/-! ## What a step can do -/

variable {machine : Machine} {config : ServerConfig} {configs : List IngressConfig}
  {s s' : LaunchServer w} {l : Label}

/-- Every step with its guard and its effect. -/
inductive Step (machine : Machine) (config : ServerConfig) (configs : List IngressConfig)
    (s : LaunchServer w) : Label → LaunchServer w → Prop
  | certified (hpc : s.pc = .certificate) (hm : machine.certifies config.tls = true) :
      Step machine config configs s (.certificate true) { s with pc := .listening }
  | uncertified (hpc : s.pc = .certificate) :
      Step machine config configs s (.certificate false) { s with pc := .panicked }
  | listened {g : ServerSystem w} (hpc : s.pc = .listening)
      (hm : machine.canBind (config.bindings configs) 0 = true)
      (hg : s.system.step config.id (.server .listen) = some g) :
      Step machine config configs s (.listen true) ⟨entry configs 0, g⟩
  | unbound (hpc : s.pc = .listening) :
      Step machine config configs s (.listen false) { s with pc := .panicked }
  | started {k : ℕ} {g : ServerSystem w} (hpc : s.pc = .starting k)
      (hm : machine.canBind (config.bindings configs) (k + 1) = true)
      (hg : s.system.step config.id (.ingress k (s.system.ingress k).start) = some g) :
      Step machine config configs s (.start true) ⟨.assigning k, g⟩
  | notStarted {k : ℕ} (hpc : s.pc = .starting k) :
      Step machine config configs s (.start false) { s with pc := .panicked }
  | assigned {k : ℕ} {ingressConfig : IngressConfig} {g : ServerSystem w}
      (hpc : s.pc = .assigning k) (hc : configs[k]? = some ingressConfig)
      (hn : s.system.server.ingressById ingressConfig.id = none)
      (hg : s.system.step config.id
        (.server (.assignIngress (ingressConfig.ingress k))) = some g) :
      Step machine config configs s .assign ⟨entry configs (k + 1), g⟩
  | assignPanics {k : ℕ} {ingressConfig : IngressConfig} (hpc : s.pc = .assigning k)
      (hc : configs[k]? = some ingressConfig)
      (hn : s.system.server.ingressById ingressConfig.id ≠ none) :
      Step machine config configs s .assign { s with pc := .panicked }
  | signalled (hpc : s.pc = .waiting) :
      Step machine config configs s .signal { s with pc := .stopping }
  | taken {g : ServerSystem w} (hpc : s.pc = .stopping)
      (hg : s.system.step config.id (.server (.stopTake 0)) = some g)
      (he : s.system.server.endpoint ≠ none) :
      Step machine config configs s .takeEndpoint ⟨.locking, g⟩
  | notTaken (hpc : s.pc = .stopping) (he : s.system.server.endpoint = none) :
      Step machine config configs s .takeEndpoint { s with pc := .panicked }
  | locked {order : List ℕ} {g : ServerSystem w} (hpc : s.pc = .locking)
      (ho : order.Perm (s.registered configs))
      (hg : s.system.step config.id (.server (.stopLockRegistry 0)) = some g) :
      Step machine config configs s (.lockRegistry order) ⟨.draining order, g⟩
  | stopped {k : ℕ} {left : List ℕ} (hpc : s.pc = .draining (k :: left)) :
      Step machine config configs s .stopIngress ⟨.draining left, (s.system.step config.id
        (.ingress k (s.system.ingress k).stop)).getD s.system⟩
  | drained {g : ServerSystem w} (hpc : s.pc = .draining [])
      (hg : s.system.step config.id (.server (.stopDrained 0)) = some g) :
      Step machine config configs s .drained ⟨.closing, g⟩
  | closed {g : ServerSystem w} (hpc : s.pc = .closing)
      (hg : s.system.step config.id (.server (.stopClose 0)) = some g) :
      Step machine config configs s .close ⟨.idling, g⟩
  | returned {g : ServerSystem w} (hpc : s.pc = .idling)
      (hg : s.system.step config.id (.server (.stopReturns 0)) = some g) :
      Step machine config configs s .returns ⟨.returned, g⟩
  | task {l : ServerSystem.Label} {g : ServerSystem w} (hl : isTask l = true)
      (hpc : s.pc.hasExited = false) (hg : s.system.step config.id l = some g) :
      Step machine config configs s (.task l) { s with system := g }

lemma goOn_eq_some_iff {pc : LaunchServerPc} {sys : Option (ServerSystem w)} :
    goOn pc sys = some s' ↔ ∃ g, sys = some g ∧ ⟨pc, g⟩ = s' := Option.map_eq_some_iff

lemma attempt_eq_some_iff {can ok : Bool} {next : Option (LaunchServer w)} :
    s.attempt can next ok = some s' ↔
      (ok = true ∧ can = true ∧ next = some s') ∨
        (ok = false ∧ { s with pc := .panicked } = s') := by
  cases ok <;> simp [attempt]

theorem step_cases (hs : step machine config configs s l = some s') :
    Step machine config configs s l s' := by
  cases l with
  | certificate ok =>
      simp only [step] at hs
      split at hs
      · rename_i hpc
        rcases attempt_eq_some_iff.mp hs with ⟨rfl, hm, hs⟩ | ⟨rfl, rfl⟩
        · rw [← Option.some.inj hs]
          exact .certified hpc hm
        · exact .uncertified hpc
      · cases hs
  | listen bound =>
      simp only [step] at hs
      split at hs
      · rename_i hpc
        rcases attempt_eq_some_iff.mp hs with ⟨rfl, hm, hs⟩ | ⟨rfl, rfl⟩
        · obtain ⟨g, hg, rfl⟩ := goOn_eq_some_iff.mp hs
          exact .listened hpc hm hg
        · exact .unbound hpc
      · cases hs
  | start bound =>
      simp only [step] at hs
      split at hs
      · rename_i k hpc
        rcases attempt_eq_some_iff.mp hs with ⟨rfl, hm, hs⟩ | ⟨rfl, rfl⟩
        · obtain ⟨g, hg, rfl⟩ := goOn_eq_some_iff.mp hs
          exact .started hpc hm hg
        · exact .notStarted hpc
      · cases hs
  | assign =>
      simp only [step] at hs
      split at hs
      · rename_i k hpc
        split at hs
        · rename_i ingressConfig hc
          split at hs
          · rename_i ingress hn
            rw [← Option.some.inj hs]
            exact .assignPanics hpc hc (by simp [hn])
          · rename_i hn
            obtain ⟨g, hg, rfl⟩ := goOn_eq_some_iff.mp hs
            exact .assigned hpc hc hn hg
        · cases hs
      · cases hs
  | signal =>
      simp only [step] at hs
      split at hs
      · rename_i hpc
        rw [← Option.some.inj hs]
        exact .signalled hpc
      · cases hs
  | takeEndpoint =>
      simp only [step] at hs
      split at hs
      · rename_i hpc
        split at hs
        · rename_i e he
          obtain ⟨g, hg, rfl⟩ := goOn_eq_some_iff.mp hs
          exact .taken hpc hg (by simp [he])
        · rename_i he
          rw [← Option.some.inj hs]
          exact .notTaken hpc he
      · cases hs
  | lockRegistry order =>
      simp only [step] at hs
      split at hs
      · rename_i hpc
        split_ifs at hs with ho
        obtain ⟨g, hg, rfl⟩ := goOn_eq_some_iff.mp hs
        exact .locked hpc (List.isPerm_iff.mp ho) hg
      · cases hs
  | stopIngress =>
      simp only [step] at hs
      split at hs
      · rename_i k left hpc
        rw [← Option.some.inj hs]
        exact .stopped hpc
      · cases hs
  | drained =>
      simp only [step] at hs
      split at hs
      · rename_i hpc
        obtain ⟨g, hg, rfl⟩ := goOn_eq_some_iff.mp hs
        exact .drained hpc hg
      · cases hs
  | close =>
      simp only [step] at hs
      split at hs
      · rename_i hpc
        obtain ⟨g, hg, rfl⟩ := goOn_eq_some_iff.mp hs
        exact .closed hpc hg
      · cases hs
  | returns =>
      simp only [step] at hs
      split at hs
      · rename_i hpc
        obtain ⟨g, hg, rfl⟩ := goOn_eq_some_iff.mp hs
        exact .returned hpc hg
      · cases hs
  | task l =>
      simp only [step] at hs
      split_ifs at hs with hl
      obtain ⟨g, hg, rfl⟩ := goOn_eq_some_iff.mp hs
      simp only [Bool.and_eq_true, Bool.not_eq_true'] at hl
      exact .task hl.1 hl.2 hg

/-! ## The system under the program -/

/-- What the program does to server and ingresses they do themselves. -/
lemma system_of_step (hs : step machine config configs s l = some s') :
    s'.system = s.system ∨ ∃ sl, s.system.step config.id sl = some s'.system := by
  cases step_cases hs with
  | listened _ _ hg | started _ _ hg | assigned _ _ _ hg | taken _ hg | locked _ _ hg
  | drained _ hg | closed _ hg | returned _ hg | task _ _ hg => exact Or.inr ⟨_, hg⟩
  | @stopped k left _ =>
      cases hg : s.system.step config.id (.ingress k (s.system.ingress k).stop) with
      | none => exact Or.inl rfl
      | some g => exact Or.inr ⟨_, hg⟩
  | _ => exact Or.inl rfl

/-- **A run of the program is one of the system it launches.** -/
theorem system_run {ls : List Label} (h : (program w machine config configs).Run ls s) :
    ∃ ms, (ServerSystem.system w config.id (kinds configs)).Run ms s.system := by
  refine h.invariant
    (P := fun s => ∃ ms, (ServerSystem.system w config.id (kinds configs)).Run ms s.system)
    ⟨[], .nil⟩ ?_
  rintro s l s' ⟨ms, hr⟩ hs
  rcases system_of_step hs with heq | ⟨sl, hsl⟩
  · exact ⟨ms, by rw [heq]; exact hr⟩
  · exact ⟨ms ++ [sl], hr.snoc hsl⟩

/-- Its registry is one of a server. -/
lemma server_run {ls : List Label} (h : (program w machine config configs).Run ls s) :
    ∃ ms, (Server.system config.id).Run ms s.system.server := by
  obtain ⟨ms, hr⟩ := system_run h
  exact ServerSystem.server_run hr

end LaunchServer

end Siffleux
