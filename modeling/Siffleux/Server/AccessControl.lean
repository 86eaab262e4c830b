import Siffleux.Server.Server

/-!
# Who gets a tunnel

The server's access control, over every run: any clients sending any bytes, in any number of
connections, while ingresses are registered and the server is stopped.

`Sound L c` is what one connection's task keeps to, where `L id ingress` says that the task has
found `ingress` under `id`.  It is preserved by the task's steps (`sound_step`) and touched by
nothing else, so it holds along every run with `L` read off the run itself.

* `assign_only_authenticated` — `assign_tunnel` is called on an ingress only for a connection whose
  first frame named that ingress, as registered when it was looked up, with its key; and a
  connection that leaves the handshake in any other way has no tunnel and has touched no ingress.
-/

namespace Siffleux

open ByteBuf Framing Transition

namespace ServerConnection

/-- The first frame decoded on the connection's first stream. -/
def FirstFrameIs (c : ServerConnection) (frame : FrameV1) : Prop :=
  codecV1.firstItem [] c.reads = .ret (some (.ok frame))

/-- The connection has named `ingress` by an id it was found under, and has its key. -/
def Admitted (L : IngressId → Ingress → Prop) (c : ServerConnection) (ingress : Ingress) : Prop :=
  ∃ authKey ingressId, c.FirstFrameIs (.auth authKey ingressId) ∧ L ingressId ingress ∧
    authKey = ingress.authKey

/-- The task has not come to `Tunnel::new`, or never will. -/
def beforeTunnel : HandlerPc → Bool
  | .notSpawned | .handshake | .acceptBi | .auth _ | .lookup .. | .checkKey .. | .reply ..
  | .noConnection | .noStream | .rejected _ => true
  | _ => false

/-- What the task knows where it is. -/
def Knows (L : IngressId → Ingress → Prop) (c : ServerConnection) : HandlerPc → Prop
  | .notSpawned | .handshake | .acceptBi => c.reads = []
  | .auth r => Unheard codecV1.toStreamDecoder c.reads r
  | .lookup authKey ingressId _ => c.FirstFrameIs (.auth authKey ingressId)
  | .checkKey ingress authKey _ =>
      ∃ ingressId, c.FirstFrameIs (.auth authKey ingressId) ∧ L ingressId ingress
  | .reply ingress _ _ | .assign ingress _ _ | .assigning ingress _ _ => c.Admitted L ingress
  | _ => True

/-- What holds of a connection at any time. -/
structure Sound (L : IngressId → Ingress → Prop) (c : ServerConnection) : Prop where
  knows : c.Knows L c.handler
  untouched : beforeTunnel c.handler = true → c.tunnel = none ∧ c.assigned = []
  assigned : ∀ ingress ∈ c.assigned, c.Admitted L ingress
  tunnel : c.tunnel.isSome = true → ∃ ingress, c.Admitted L ingress

variable {L L' : IngressId → Ingress → Prop} {c c' : ServerConnection}

lemma sound_new : Sound L .new :=
  ⟨rfl, fun _ => ⟨rfl, rfl⟩, fun _ h => absurd h (by simp [new]), fun h => by simp [new] at h⟩

/-- What was decoded first does not change when more is read. -/
lemma Admitted.mono (h : ∀ id ingress, L id ingress → L' id ingress)
    (hr : ∃ more, c'.reads = c.reads ++ more) {ingress : Ingress} (ha : c.Admitted L ingress) :
    c'.Admitted L' ingress := by
  obtain ⟨authKey, ingressId, hf, hl, hk⟩ := ha
  obtain ⟨more, hr⟩ := hr
  refine ⟨authKey, ingressId, ?_, h _ _ hl, hk⟩
  rw [FirstFrameIs, hr]
  exact firstItem_append _ more hf

lemma Knows.mono (h : ∀ id ingress, L id ingress → L' id ingress) (hr : c'.reads = c.reads)
    {pc : HandlerPc} (hk : c.Knows L pc) : c'.Knows L' pc := by
  have hf : ∀ f, c.FirstFrameIs f → c'.FirstFrameIs f := by
    intro f hf
    rw [FirstFrameIs, hr]
    exact hf
  cases pc with
  | notSpawned | handshake | acceptBi => exact hr.trans hk
  | auth r =>
      rw [Knows, hr]
      exact hk
  | lookup authKey ingressId r => exact hf _ hk
  | checkKey ingress authKey r =>
      obtain ⟨ingressId, hfirst, hl⟩ := hk
      exact ⟨ingressId, hf _ hfirst, h _ _ hl⟩
  | reply ingress tunnelId r | assign ingress tunnelId r | assigning ingress tunnelId r =>
      exact Admitted.mono h ⟨[], by rw [hr, List.append_nil]⟩ hk
  | _ => trivial

/-- A step that neither reads nor makes a tunnel nor touches an ingress. -/
lemma Sound.move (hs : c.Sound L) (h : ∀ id ingress, L id ingress → L' id ingress)
    (hr : c'.reads = c.reads) (ht : c'.tunnel = c.tunnel) (ha : c'.assigned = c.assigned)
    (hk : c'.Knows L' c'.handler)
    (hb : beforeTunnel c'.handler = true → beforeTunnel c.handler = true) : c'.Sound L' := by
  have hm : ∀ ingress, c.Admitted L ingress → c'.Admitted L' ingress := fun ingress =>
    Admitted.mono h ⟨[], by rw [hr, List.append_nil]⟩
  refine ⟨hk, fun hb' => ?_, fun ingress hi => ?_, fun htun => ?_⟩
  · rw [ht, ha]
    exact hs.untouched (hb hb')
  · rw [ha] at hi
    exact hm ingress (hs.assigned ingress hi)
  · rw [ht] at htun
    obtain ⟨ingress, hi⟩ := hs.tunnel htun
    exact ⟨ingress, hm ingress hi⟩

/-- A connection whose task did not move. -/
lemma Sound.sameTask (hs : c.Sound L) (h : ∀ id ingress, L id ingress → L' id ingress)
    (hc : Server.SameTask c c') : c'.Sound L' := by
  rcases hc.handler with he | ⟨hn, hh⟩
  · refine hs.move h hc.reads hc.tunnel hc.assigned ?_ (by rw [he]; exact id)
    rw [he]
    exact hs.knows.mono h hc.reads
  · have hk := hs.knows
    rw [hn] at hk
    refine hs.move h hc.reads hc.tunnel hc.assigned ?_ (fun _ => by rw [hn]; rfl)
    rw [hh]
    exact hc.reads.trans hk

/-- Leaving the handshake with an error, after any close. -/
lemma Sound.reject (hs : c.Sound L) (h : ∀ id ingress, L id ingress → L' id ingress)
    (hb : beforeTunnel c.handler = true) (code : VarInt) (reason : Bytes) (e : Error) :
    (c.reject code reason e).Sound L' :=
  hs.move h (close_reads c code reason) (close_tunnel c code reason) (close_assigned c code reason)
    trivial fun _ => hb

/-- The end of the task. -/
lemma Sound.leave (hs : c.Sound L) (h : ∀ id ingress, L id ingress → L' id ingress)
    {pc : HandlerPc} (hk : (c.leave pc).Knows L' pc)
    (hb : beforeTunnel pc = true → beforeTunnel c.handler = true) : (c.leave pc).Sound L' :=
  hs.move h (leave_reads c pc) (leave_tunnel c pc) (leave_assigned c pc) hk hb

lemma Sound.pollAuth (hs : c.Sound L) (h : ∀ id ingress, L id ingress → L' id ingress)
    {r : FramedRead} (hc : c.handler = .auth r) : (c.pollAuth r).Sound L' := by
  have hk := hs.knows
  rw [hc] at hk
  have hb : beforeTunnel c.handler = true := by rw [hc]; rfl
  rw [ServerConnection.pollAuth]
  split
  · exact hs.leave h trivial fun _ => hb
  · rename_i r' hp
    exact hs.move h rfl rfl rfl (Unheard.poll_pending hk hp) fun _ => hb
  · exact hs.leave h trivial fun _ => hb
  · rename_i frame r' hp
    have hf : c.FirstFrameIs frame := Unheard.poll_frame codecV1_patient hk hp
    cases frame with
    | auth authKey ingressId => exact hs.move h rfl rfl rfl hf fun _ => hb
    | _ => exact hs.reject h hb _ _ _
  · exact hs.reject h hb _ _ _

lemma Sound.onCommandError (hs : c.Sound L) (h : ∀ id ingress, L id ingress → L' id ingress)
    (u : Uuid) (e : Error) : (c.onCommandError u e).Sound L' := by
  rw [ServerConnection.onCommandError]
  split_ifs
  · exact hs.leave h trivial fun hb => by cases hb
  · exact hs.move h rfl rfl rfl trivial fun hb => by cases hb

lemma Sound.pollCommands (hs : c.Sound L) (h : ∀ id ingress, L id ingress → L' id ingress)
    (u : Uuid) (r : FramedRead) : (c.pollCommands u r).Sound L' := by
  rw [ServerConnection.pollCommands]
  split
  · exact hs.leave h trivial fun hb => by cases hb
  · exact hs.move h rfl rfl rfl trivial fun hb => by cases hb
  · exact hs.leave h trivial fun hb => by cases hb
  · exact hs.move h rfl rfl rfl trivial fun hb => by cases hb
  · exact hs.move h rfl rfl rfl trivial fun hb => by cases hb
  · exact hs.onCommandError h u _

/-- The reply, once it has been sent: `Tunnel::new`. -/
lemma Sound.reply (hs : c.Sound L) (h : ∀ id ingress, L id ingress → L' id ingress)
    {ingress : Ingress} {u : Uuid} {r : FramedRead} (hc : c.handler = .reply ingress u r)
    (serverId : ServerId) :
    Sound L' { c with
      written := c.written ++ [.authenticated u serverId]
      handler := .assign ingress u r
      tunnel := some u } := by
  have hk := hs.knows
  rw [hc] at hk
  obtain ⟨-, hass⟩ := hs.untouched (by rw [hc]; rfl)
  have hnil : ∃ more, c.reads = c.reads ++ more := ⟨[], (List.append_nil _).symm⟩
  have hadm : Admitted L' { c with
      written := c.written ++ [.authenticated u serverId]
      handler := .assign ingress u r
      tunnel := some u } ingress := Admitted.mono h hnil hk
  refine ⟨hadm, fun hb => Bool.noConfusion hb, fun i hi => ?_, fun _ => ⟨ingress, hadm⟩⟩
  have hi' : i ∈ c.assigned := hi
  rw [hass] at hi'
  cases hi'

/-- The call of `assign_tunnel`. -/
lemma Sound.callAssign (hs : c.Sound L) (h : ∀ id ingress, L id ingress → L' id ingress)
    {ingress : Ingress} {u : Uuid} {r : FramedRead} (hc : c.handler = .assign ingress u r) :
    Sound L' { c with
      assigned := c.assigned ++ [ingress]
      handler := .assigning ingress u r } := by
  have hk := hs.knows
  rw [hc] at hk
  have hm : ∀ i, c.Admitted L i → Admitted L' { c with
      assigned := c.assigned ++ [ingress]
      handler := .assigning ingress u r } i := fun i =>
    Admitted.mono h ⟨[], (List.append_nil _).symm⟩
  refine ⟨hm _ hk, fun hb => Bool.noConfusion hb, fun i hi => ?_, fun ht => ?_⟩
  · rcases List.mem_append.mp hi with hi | hi
    · exact hm i (hs.assigned i hi)
    · rw [List.mem_singleton.mp hi]
      exact hm _ hk
  · obtain ⟨i, hi⟩ := hs.tunnel ht
    exact ⟨i, hm i hi⟩

/-- More bytes for the reader of the handshake, or of the command stream. -/
lemma Sound.readData (hs : c.Sound L) (h : ∀ id ingress, L id ingress → L' id ingress)
    {chunk : Bytes} (hr : c'.reads = c.reads ++ [chunk]) (ht : c'.tunnel = c.tunnel)
    (ha : c'.assigned = c.assigned) (hk : c'.Knows L' c'.handler)
    (hb : beforeTunnel c'.handler = true → beforeTunnel c.handler = true) : c'.Sound L' := by
  refine ⟨hk, fun hb' => ?_, fun ingress hi => ?_, fun htun => ?_⟩
  · rw [ht, ha]
    exact hs.untouched (hb hb')
  · rw [ha] at hi
    exact (hs.assigned ingress hi).mono h ⟨[chunk], hr⟩
  · rw [ht] at htun
    obtain ⟨ingress, hi⟩ := hs.tunnel htun
    exact ⟨ingress, hi.mono h ⟨[chunk], hr⟩⟩

/-- **Every step of the task keeps the connection sound**, if what a lookup finds is recorded. -/
theorem sound_step {serverId : ServerId} {registry : IngressId → Option Ingress} {l : Label}
    (hs : c.Sound L) (h : ∀ id ingress, L id ingress → L' id ingress)
    (hl : l = .lookup → ∀ id ingress, registry id = some ingress → L' id ingress)
    (hstep : c.step serverId registry l = some c') : c'.Sound L' := by
  have hk := hs.knows
  cases step_cases hstep with
  | @handshaken ok hc =>
      rw [hc] at hk
      cases ok with
      | true => exact hs.move h rfl rfl rfl hk fun _ => by rw [hc]; rfl
      | false => exact hs.move h rfl rfl rfl trivial fun _ => by rw [hc]; rfl
  | accepted hc =>
      rw [hc] at hk
      have hreads : c.reads = [] := hk
      refine hs.move h rfl rfl rfl ?_ fun _ => by rw [hc]; rfl
      rw [Knows, hreads]
      exact unheard_new
  | noStream hc =>
      exact hs.move h (by simp) (by simp) (by simp) trivial fun _ => by rw [hc]; rfl
  | @authData r chunk hc hw =>
      rw [hc] at hk
      exact hs.readData h rfl rfl rfl (Unheard.readData hk hw chunk) fun _ => by rw [hc]; rfl
  | commandData => exact hs.readData h rfl rfl rfl trivial fun hb => by cases hb
  | authEof hc hw =>
      rw [hc] at hk
      exact hs.move h rfl rfl rfl (Unheard.readEof hk hw) fun _ => by rw [hc]; rfl
  | commandEof => exact hs.move h rfl rfl rfl trivial fun hb => by cases hb
  | authFails hc | timedOut hc => exact hs.reject h (by rw [hc]; rfl) _ _ _
  | commandFails => exact hs.onCommandError h _ _
  | authPolled hc => exact hs.pollAuth h hc
  | commandPolled => exact hs.pollCommands h _ _
  | @found authKey ingressId r ingress hc hreg =>
      rw [hc] at hk
      exact hs.move h rfl rfl rfl ⟨ingressId, hk, hl rfl _ _ hreg⟩ fun _ => by rw [hc]; rfl
  | notFound hc | wrongKey hc => exact hs.reject h (by rw [hc]; rfl) _ _ _
  | @rightKey ingress authKey r tunnelId hc hkey =>
      rw [hc] at hk
      obtain ⟨ingressId, hf, hlook⟩ := hk
      exact hs.move h rfl rfl rfl ⟨authKey, ingressId, hf, h _ _ hlook, hkey.symm⟩
        fun _ => by rw [hc]; rfl
  | replied hc => exact hs.reply h hc serverId
  | replyFails hc => exact hs.leave h trivial fun _ => by rw [hc]; rfl
  | assignCalled hc => exact hs.callAssign h hc
  | assignReturned => exact hs.move h rfl rfl rfl trivial fun hb => by cases hb
  | @pinged u r failure | @ponged u r failure =>
      cases failure <;> exact hs.move h rfl rfl rfl trivial fun hb => by cases hb
  | tunnelClosed => exact hs.move h (by simp) (by simp) (by simp) trivial fun hb => by cases hb

end ServerConnection

namespace Server

/-- At some moment of the run, the task of connection `k` took its lookup and `ingress` was
registered under `id`. -/
def LookedUp (serverId : ServerId) (ls : List Label) (k : ℕ) (id : IngressId)
    (ingress : Ingress) : Prop :=
  ∃ ls₁ ls₂ s₁, ls = ls₁ ++ .handler k .lookup :: ls₂ ∧ (system serverId).Run ls₁ s₁ ∧
    s₁.ingressById id = some ingress

lemma LookedUp.snoc {serverId : ServerId} {ls : List Label} {k : ℕ} {id : IngressId}
    {ingress : Ingress} (h : LookedUp serverId ls k id ingress) (l : Label) :
    LookedUp serverId (ls ++ [l]) k id ingress := by
  obtain ⟨ls₁, ls₂, s₁, rfl, hr, hi⟩ := h
  exact ⟨ls₁, ls₂ ++ [l], s₁, by simp, hr, hi⟩

/-- **Every connection is sound at any time**, with what the run shows it has looked up. -/
theorem sound_run {serverId : ServerId} {ls : List Label} {s : Server}
    (h : (system serverId).Run ls s) (k : ℕ) :
    (s.connection k).Sound (LookedUp serverId ls k) := by
  induction h with
  | nil => exact ServerConnection.sound_new
  | @snoc ls s s' l hr hs ih =>
      have hmono : ∀ id ingress, LookedUp serverId ls k id ingress →
          LookedUp serverId (ls ++ [l]) k id ingress := fun _ _ hlu => hlu.snoc l
      rcases connection_step hs k with hsame | ⟨hl, rfl, hstep⟩
      · exact ih.sameTask hmono hsame
      · refine ServerConnection.sound_step ih hmono ?_ hstep
        rintro rfl id ingress hreg
        exact ⟨ls, [], s, rfl, hr, hreg⟩

/-- What the handshake promises about a connection in a run. -/
structure AccessControlled (serverId : ServerId) (ls : List Label) (k : ℕ)
    (c : ServerConnection) : Prop where
  assigned : ∀ ingress ∈ c.assigned, c.Admitted (LookedUp serverId ls k) ingress
  tunnel : c.tunnel.isSome = true → ∃ ingress, c.Admitted (LookedUp serverId ls k) ingress
  rejected : ServerConnection.beforeTunnel c.handler = true → c.tunnel = none ∧ c.assigned = []

/-- **Only authenticated tunnels are ever registered.**  In every run, for every connection:
`assign_tunnel` was called only on an ingress whose id the connection's first frame named, that was
registered under this id when the task looked it up, and whose key the frame carried; without such
an ingress there is no tunnel; and a task that was rejected, or has not come so far, has made no
tunnel and touched no ingress. -/
theorem assign_only_authenticated (serverId : ServerId) (ls : List Label) (s : Server)
    (h : (system serverId).Run ls s) (k : ℕ) :
    AccessControlled serverId ls k (s.connection k) := by
  have hs := sound_run h k
  exact ⟨hs.assigned, hs.tunnel, hs.untouched⟩

/-- A client that knows the key of the only ingress. -/
def ingressB : Ingress := ⟨0, ⟨"b", by decide, by decide⟩, ⟨"a", by decide, by decide⟩⟩

def serverS : ServerId := ⟨"s", by decide, by decide⟩

/-- The client connects, sends its `Auth` frame in two parts, and gets its tunnel. -/
def admittedRun : List Label :=
  [.listen, .assignIngress ingressB, .incoming 0 0, .handler 0 (.handshake true),
    .handler 0 (.acceptBi none), .handler 0 (.readData [0, 0, 4, 1]), .handler 0 .poll,
    .handler 0 (.readData [97, 1, 98]), .handler 0 .poll, .handler 0 .lookup,
    .handler 0 (.checkKey ⟨Vector.replicate 16 7⟩), .handler 0 (.reply none),
    .handler 0 .callAssign]

theorem assign_only_authenticated_key_a : ∃ s, (system serverS).Run admittedRun s ∧
    (s.connection 0).assigned = [ingressB] ∧
    AccessControlled serverS admittedRun 0 (s.connection 0) :=
  ⟨_, System.run_of_exec rfl, rfl,
    assign_only_authenticated serverS admittedRun _ (System.run_of_exec rfl) 0⟩

end Server

end Siffleux
