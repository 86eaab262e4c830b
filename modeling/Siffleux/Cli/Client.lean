import Siffleux.Cli.SiffleuxConfig
import Siffleux.Client.Client
import Siffleux.Client.Egress.Modes

/-!
# The client program

`launch_client_with_egresses` of `siffleux-cli/src/client.rs`: the main thread brings up the
egresses of the configuration one after the other, waits for a signal, and stops them in the order
the map gives them out.  The tunnel tasks of all egresses run beside it, and go down with the
process when the main thread returns or panics.

An egress is named by its place in the configuration.  The main thread makes the only calls of
`start` and `stop`, call 0 of either.

What lies outside is a `Lookup`: which addresses a text may be resolved to, and the bytes base64
finds in it.  The panic of a tunnel task ends that task: panics unwind, as in dev and test builds
(the release profile of the repository aborts the process instead).

`LaunchClient.step_cases` is the step, inverted.
-/

namespace Siffleux

open ByteBuf Transition

/-- The egress that is made of a configuration, up to its serving loop. -/
def EgressConfig.mainLoop : EgressConfig → MainLoop
  | tcp _ => TcpEgress.mainLoop
  | udp _ => UdpEgress.mainLoop

/-- What the program finds when it looks a text up.  `address text` are the addresses that
`lookup_host` may give first: none for a text it cannot read, such as one without a port. -/
structure Lookup where
  address : String → SocketAddr → Bool
  decode : String → Option Bytes

/-- An answer that `lookup_host` may give; it may always fail. -/
def Lookup.mayAnswer (look : Lookup) (text : String) : Option SocketAddr → Bool
  | none => true
  | some addr => look.address text addr

/-! ## The main thread -/

/-- Where the main thread is.  `stopping` has the egresses that are not stopped yet, the one that
is being stopped first. -/
inductive LaunchPc where
  | lookup (k : ℕ)
  | starting (k : ℕ)
  | assigning (k : ℕ)
  | waiting
  | draining
  | stopping (left : List (EgressId × ℕ))
  | returned
  | panicked
  deriving DecidableEq

/-- The process has ended. -/
def LaunchPc.hasExited : LaunchPc → Bool
  | returned | panicked => true
  | _ => false

/-- All egresses have been brought up. -/
def LaunchPc.isUp : LaunchPc → Bool
  | waiting | draining | stopping _ | returned => true
  | _ => false

/-- The signal has come. -/
def LaunchPc.isStopping : LaunchPc → Bool
  | draining | stopping _ => true
  | _ => false

/-- The thread is in `start`, or in `stop`, of egress `k`. -/
def LaunchPc.isStartingOf (k : ℕ) : LaunchPc → Bool
  | starting j => j = k
  | _ => false

def LaunchPc.isStoppingOf (k : ℕ) : LaunchPc → Bool
  | stopping ((_, j) :: _) => j = k
  | _ => false

/-- The egress `configs` has in place `k`. -/
def loopOf (configs : List EgressConfig) (k : ℕ) : MainLoop :=
  (configs[k]?.map EgressConfig.mainLoop).getD TcpEgress.mainLoop

structure LaunchClient (configs : List EgressConfig) where
  pc : LaunchPc
  client : Client
  egress : (k : ℕ) → Egress (loopOf configs k)

namespace LaunchClient

variable {configs : List EgressConfig}

/-- The next egress, or the signal when there is none. -/
def entry (configs : List EgressConfig) (k : ℕ) : LaunchPc :=
  if k < configs.length then .lookup k else .waiting

def new (configs : List EgressConfig) : LaunchClient configs :=
  ⟨entry configs 0, .new, fun k => .new (loopOf configs k)⟩

inductive Label (configs : List EgressConfig) where
  | resolve (target server : Option SocketAddr)
  | started
  | assign
  | signal
  | drain (order : List (EgressId × ℕ))
  | stopped
  | egress (k : ℕ) (l : Egress.Label (loopOf configs k))

/-- Only the thread's own calls are made; the tasks run until the process ends. -/
def permits (pc : LaunchPc) (k : ℕ) {L : MainLoop} : Egress.Label L → Bool
  | .startLock c | .startCheck c | .startSend c | .startWrite c | .startSpawn c | .startStore c =>
      c = 0 && LaunchPc.isStartingOf k pc
  | .stopTake c | .stopCancel c | .stopAwait c | .stopSend c => c = 0 && LaunchPc.isStoppingOf k pc
  | _ => !pc.hasExited

/-- The two addresses of an egress are looked up, and its hash is decoded. -/
def resolve (look : Lookup) (s : LaunchClient configs) (k : ℕ) (config : EgressConfig)
    (target server : Option SocketAddr) : Option (LaunchClient configs) :=
  if look.mayAnswer config.target target &&
      look.mayAnswer config.authenticationConfig.server server then
    some (if target.isSome && server.isSome && (look.decode config.certHash).isSome then
      { s with pc := .starting k }
    else { s with pc := .panicked })
  else none

/-- An error that is unwrapped is a panic; the errors of `stop` are logged. -/
def step (look : Lookup) (p : Profile) (s : LaunchClient configs) :
    Label configs → Option (LaunchClient configs)
  | .resolve target server =>
      match s.pc with
      | .lookup k => configs[k]?.bind fun config => s.resolve look k config target server
      | _ => none
  | .started =>
      match s.pc with
      | .starting k =>
          match (s.egress k).startCall 0 with
          | .returned => some { s with pc := .assigning k }
          | .refused => some { s with pc := .panicked }
          | _ => none
      | _ => none
  | .assign =>
      match s.pc with
      | .assigning k => configs[k]?.map fun config =>
          match s.client.assignEgress config.id k with
          | .ok client => { s with pc := entry configs (k + 1), client := client }
          | .error _ => { s with pc := .panicked }
      | _ => none
  | .signal =>
      match s.pc with
      | .waiting => some { s with pc := .draining }
      | _ => none
  | .drain order =>
      match s.pc with
      | .draining =>
          if order.isPerm s.client.egressById then
            some { s with pc := .stopping order, client := .new }
          else none
      | _ => none
  | .stopped =>
      match s.pc with
      | .stopping [] => some { s with pc := .returned }
      | .stopping ((_, k) :: left) =>
          match (s.egress k).stopCall 0 with
          | .returned | .refused | .failed => some { s with pc := .stopping left }
          | _ => none
      | _ => none
  | .egress k l =>
      if permits s.pc k l then
        (Egress.step p (s.egress k) l).map fun g =>
          { s with egress := Function.update s.egress k g }
      else none

def system (look : Lookup) (configs : List EgressConfig) (p : Profile) :
    System (LaunchClient configs) (Label configs) := ⟨new configs, step look p⟩

/-! ## What a step can do -/

variable {look : Lookup} {p : Profile} {s s' : LaunchClient configs} {l : Label configs}

/-- Every step with its guard and its effect. -/
inductive Step (look : Lookup) (p : Profile) (s : LaunchClient configs) :
    Label configs → LaunchClient configs → Prop
  | resolved {k : ℕ} {config : EgressConfig} {target server : SocketAddr}
      (hpc : s.pc = .lookup k) (hc : configs[k]? = some config)
      (ht : look.address config.target target = true)
      (hs : look.address config.authenticationConfig.server server = true)
      (hd : (look.decode config.certHash).isSome = true) :
      Step look p s (.resolve (some target) (some server)) { s with pc := .starting k }
  | unresolved {k : ℕ} {config : EgressConfig} {target server : Option SocketAddr}
      (hpc : s.pc = .lookup k) (hc : configs[k]? = some config)
      (hd : target = none ∨ server = none ∨ look.decode config.certHash = none) :
      Step look p s (.resolve target server) { s with pc := .panicked }
  | started {k : ℕ} (hpc : s.pc = .starting k) (hs : (s.egress k).startCall 0 = .returned) :
      Step look p s .started { s with pc := .assigning k }
  | startPanics {k : ℕ} (hpc : s.pc = .starting k) (hs : (s.egress k).startCall 0 = .refused) :
      Step look p s .started { s with pc := .panicked }
  | assigned {k : ℕ} {config : EgressConfig} (hpc : s.pc = .assigning k)
      (hc : configs[k]? = some config) (hn : config.id ∉ s.client.egressById.map Prod.fst) :
      Step look p s .assign
        { s with pc := entry configs (k + 1), client := ⟨s.client.egressById ++ [(config.id, k)]⟩ }
  | assignPanics {k : ℕ} {config : EgressConfig} (hpc : s.pc = .assigning k)
      (hc : configs[k]? = some config) (hn : config.id ∈ s.client.egressById.map Prod.fst) :
      Step look p s .assign { s with pc := .panicked }
  | signalled (hpc : s.pc = .waiting) : Step look p s .signal { s with pc := .draining }
  | drained {order : List (EgressId × ℕ)} (hpc : s.pc = .draining)
      (ho : order.Perm s.client.egressById) :
      Step look p s (.drain order) { s with pc := .stopping order, client := .new }
  | stopped {id : EgressId} {k : ℕ} {left : List (EgressId × ℕ)}
      (hpc : s.pc = .stopping ((id, k) :: left))
      (hs : (s.egress k).stopCall 0 ≠ .notCalled ∧ ((s.egress k).stopCall 0).inFlight = false) :
      Step look p s .stopped { s with pc := .stopping left }
  | allStopped (hpc : s.pc = .stopping []) : Step look p s .stopped { s with pc := .returned }
  | egress {k : ℕ} {l : Egress.Label (loopOf configs k)} {g : Egress (loopOf configs k)}
      (hp : permits s.pc k l = true) (hs : Egress.step p (s.egress k) l = some g) :
      Step look p s (.egress k l) { s with egress := Function.update s.egress k g }

lemma resolve_cases {k : ℕ} {config : EgressConfig} {target server : Option SocketAddr}
    (hpc : s.pc = .lookup k) (hc : configs[k]? = some config)
    (hs : s.resolve look k config target server = some s') :
    Step look p s (.resolve target server) s' := by
  rw [resolve, Option.ite_none_right_eq_some, Option.some.injEq] at hs
  obtain ⟨hm, rfl⟩ := hs
  split_ifs with hd
  · cases target with
    | none => cases hd
    | some target =>
        cases server with
        | none => cases hd
        | some server =>
            obtain ⟨ht, hserver⟩ := Bool.and_eq_true_iff.mp hm
            exact .resolved hpc hc ht hserver (by simpa using hd)
  · refine .unresolved hpc hc ?_
    cases target with
    | none => exact Or.inl rfl
    | some target =>
        cases server with
        | none => exact Or.inr (Or.inl rfl)
        | some server => exact Or.inr (Or.inr (by simpa using hd))

theorem step_cases (hs : step look p s l = some s') : Step look p s l s' := by
  cases l with
  | resolve target server =>
      simp only [step] at hs
      split at hs
      · rename_i k hpc
        obtain ⟨config, hc, hs⟩ := Option.bind_eq_some_iff.mp hs
        exact resolve_cases hpc hc hs
      · cases hs
  | started =>
      simp only [step] at hs
      split at hs
      · rename_i k hpc
        split at hs
        · rename_i hstart
          rw [← Option.some.inj hs]
          exact .started hpc hstart
        · rename_i hstart
          rw [← Option.some.inj hs]
          exact .startPanics hpc hstart
        · cases hs
      · cases hs
  | assign =>
      simp only [step] at hs
      split at hs
      · rename_i k hpc
        simp only [Option.map_eq_some_iff, Client.assignEgress] at hs
        obtain ⟨config, hc, hs⟩ := hs
        split_ifs at hs with hn
        · subst hs
          exact .assignPanics hpc hc (by simpa using hn)
        · subst hs
          exact .assigned hpc hc (by simpa using hn)
      · cases hs
  | signal =>
      simp only [step] at hs
      split at hs
      · rename_i hpc
        rw [← Option.some.inj hs]
        exact .signalled hpc
      · cases hs
  | drain order =>
      simp only [step] at hs
      split at hs
      · rename_i hpc
        simp only [Option.ite_none_right_eq_some, Option.some.injEq] at hs
        obtain ⟨ho, rfl⟩ := hs
        exact .drained hpc (List.isPerm_iff.mp ho)
      · cases hs
  | stopped =>
      simp only [step] at hs
      split at hs
      · rename_i hpc
        rw [← Option.some.inj hs]
        exact .allStopped hpc
      · rename_i id k left hpc
        split at hs
        · rename_i hstop
          rw [← Option.some.inj hs]
          exact .stopped hpc (by simp [hstop, StopPc.inFlight])
        · rename_i hstop
          rw [← Option.some.inj hs]
          exact .stopped hpc (by simp [hstop, StopPc.inFlight])
        · rename_i hstop
          rw [← Option.some.inj hs]
          exact .stopped hpc (by simp [hstop, StopPc.inFlight])
        · cases hs
      · cases hs
  | egress k l =>
      simp only [step, Option.ite_none_right_eq_some, Option.map_eq_some_iff] at hs
      obtain ⟨hp, g, hg, rfl⟩ := hs
      exact .egress hp hg

end LaunchClient

end Siffleux
