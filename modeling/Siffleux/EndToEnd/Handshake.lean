import Siffleux.Client.Protocols.V1
import Siffleux.Server.Server

/-!
# The two ends of the handshake

`handle_client_protocol_v1_auth` against `handle_server_protocol_v1_auth`, over a transport that
loses nothing: every frame arrives whole and in one read, and the code of a close arrives as the
error of the other side's connection.  Neither timer fires and nobody else closes the connection.

A server that accepts says so in a frame; one that refuses says why in the code it closes with, and
the client's read fails with that code inside of three errors.

* `ClientAt`, `ServerAt` — the states either end passes, as far as the other end decides them.
* `Parties.verdict` — who is accepted: the registry and the key decide, and nothing else.
* `handshake_agrees` — both ends return, and return the verdict.
-/

namespace Siffleux

open ByteBuf Framing Transition

/-! ## The registry -/

/-- What `ingress_by_id` can hold: `assign_ingress` puts an ingress under its own id. -/
structure IngressById where
  get : IngressId → Option Ingress
  id_get : ∀ id ingress, get id = some ingress → ingress.id = id

/-- The registry of a server at any time. -/
def IngressById.ofServer {serverId : ServerId} (s : Server)
    (h : ∃ ls, (Server.system serverId).Run ls s) : IngressById :=
  ⟨s.ingressById, Server.registered_under_id h⟩

/-! ## The two ends together -/

/-- What the two functions are called with. -/
structure Parties where
  serverId : ServerId
  registry : IngressById
  authKey : AuthKey
  ingressId : IngressId

/-- Who is accepted. -/
def Parties.verdict (p : Parties) : Except Error Ingress :=
  match p.registry.get p.ingressId with
  | none => .error .rejectedIngressId
  | some ingress => if ingress.authKey = p.authKey then .ok ingress else .error .rejectedAuthKey

structure Handshake where
  client : ClientConnection
  server : ServerConnection

namespace Handshake

/-- The server's task waits for the first stream. -/
def accepting : ServerConnection := { ServerConnection.new with handler := .acceptBi }

def new : Handshake := ⟨.new, accepting⟩

/-- What `handle_client_protocol_v1_auth` has returned. -/
def clientResult (s : Handshake) : Option (Except Error Tunnel) :=
  match s.client.auth with
  | .returned result => some result
  | _ => none

/-- What `handle_server_protocol_v1_auth` has returned. -/
def serverResult (serverId : ServerId) (s : Handshake) :
    Option (Except Error (Ingress × Tunnel)) :=
  match s.server.handler with
  | .assign ingress tunnelId _ => some (.ok (ingress, ⟨tunnelId, serverId⟩))
  | .rejected e => some (.error e)
  | _ => none

/-- The next frame under way, of those `written` at one end, when the other has had `reads`. -/
def inFlight (written : List FrameV1) (reads : List Bytes) : Option Bytes :=
  written[reads.length]?.map frameBytes

inductive Label where
  | openBi
  | sendAuth
  | toClient
  | closeToClient
  | clientReadFails
  | clientPolls
  | acceptBi
  | toServer
  | closeToServer
  | serverReadFails
  | serverPolls
  | lookup
  | checkKey (tunnelId : Uuid)
  | reply
  deriving DecidableEq

/-- A step of the client's function, until it has returned. -/
def clientStep (p : Parties) (s : Handshake) (l : ClientConnection.Label) : Option Handshake :=
  if s.clientResult.isSome then none
  else (s.client.step p.authKey p.ingressId l).map fun c => { s with client := c }

/-- A step of the server's function, until it has returned. -/
def serverStep (p : Parties) (s : Handshake) (l : ServerConnection.Label) : Option Handshake :=
  if (s.serverResult p.serverId).isSome then none
  else (s.server.step p.serverId p.registry.get l).map fun c => { s with server := c }

/-- A read fails when the connection is lost and nothing is left to deliver. -/
def step (p : Parties) (s : Handshake) : Label → Option Handshake
  | .openBi => s.clientStep p (.openBi none)
  | .sendAuth => s.clientStep p (.sendAuth none)
  | .toClient => (inFlight s.server.written s.client.reads).bind fun chunk =>
      s.clientStep p (.readData chunk)
  | .closeToClient => s.server.closeFrame.bind fun ac =>
      s.clientStep p (.lose (.applicationClosed ac))
  | .clientReadFails =>
      if (inFlight s.server.written s.client.reads).isSome then none
      else s.client.lost.bind fun e => s.clientStep p (.readFails (.connectionLost e))
  | .clientPolls => s.clientStep p .poll
  | .acceptBi => if s.client.written = [] then none else s.serverStep p (.acceptBi none)
  | .toServer => (inFlight s.client.written s.server.reads).bind fun chunk =>
      s.serverStep p (.readData chunk)
  | .closeToServer => s.client.closeFrame.bind fun ac =>
      if s.server.lost.isSome then none
      else some { s with server := { s.server with lost := some (.applicationClosed ac) } }
  | .serverReadFails =>
      if (inFlight s.client.written s.server.reads).isSome then none
      else s.server.lost.bind fun e => s.serverStep p (.readFails (.connectionLost e))
  | .serverPolls => s.serverStep p .poll
  | .lookup => s.serverStep p .lookup
  | .checkKey tunnelId => s.serverStep p (.checkKey tunnelId)
  | .reply => s.serverStep p (.reply none)

def system (p : Parties) : System Handshake Label := ⟨new, step p⟩

/-- Both functions have returned. -/
def isOver (p : Parties) (s : Handshake) : Bool :=
  s.clientResult.isSome && (s.serverResult p.serverId).isSome

/-! ## The states of either end -/

section

variable (p : Parties)

/-- The client's one frame. -/
def request : FrameV1 := .auth p.authKey p.ingressId

/-- The server's one frame, for the tunnel it makes. -/
def answer (t : Tunnel) : FrameV1 := .authenticated t.id t.serverId

/-- The states the client passes, and what it can tell of the server's. -/
inductive ClientAt (sv : ServerConnection) : ClientConnection → Prop
  | opening (h : sv = accepting) : ClientAt sv ⟨none, none, [], [], .openBi, .notSpawned⟩
  | sending (h : sv = accepting) : ClientAt sv ⟨none, none, [], [], .sendAuth, .notSpawned⟩
  | waiting : ClientAt sv ⟨none, none, [], [request p], .waiting .new, .notSpawned⟩
  | answered (t : Tunnel) (h : sv.written = [answer t]) : ClientAt sv
      ⟨none, none, [frameBytes (answer t)], [request p],
        .waiting (.readData .new (frameBytes (answer t))), .notSpawned⟩
  | accepted (t : Tunnel) (h : sv.written = [answer t]) : ClientAt sv
      ⟨none, none, [frameBytes (answer t)], [request p], .returned (.ok t),
        .commands (.readData .new [])⟩
  | closed (ac : ApplicationClose) (h : sv.closeFrame = some ac) : ClientAt sv
      ⟨some (.applicationClosed ac), none, [], [request p], .waiting .new, .notSpawned⟩
  | refused (ac : ApplicationClose) (h : sv.closeFrame = some ac) : ClientAt sv
      ⟨some (.applicationClosed ac), none, [], [request p],
        .returned (.error (.ofConnectionError (.applicationClosed ac))), .notSpawned⟩

/-- The states the server passes, with what has been decided. -/
inductive ServerAt : ServerConnection → Prop
  | accepting : ServerAt accepting
  | waiting : ServerAt ⟨none, none, [], [], .auth .new, none, [], none⟩
  | heard : ServerAt ⟨none, none, [frameBytes (request p)], [],
      .auth (.readData .new (frameBytes (request p))), none, [], none⟩
  | looking : ServerAt ⟨none, none, [frameBytes (request p)], [],
      .lookup p.authKey p.ingressId (.readData .new []), none, [], none⟩
  | checking (ingress : Ingress) (h : p.registry.get p.ingressId = some ingress) :
      ServerAt ⟨none, none, [frameBytes (request p)], [],
        .checkKey ingress p.authKey (.readData .new []), none, [], none⟩
  | replying (ingress : Ingress) (tunnelId : Uuid) (h : p.verdict = .ok ingress) :
      ServerAt ⟨none, none, [frameBytes (request p)], [],
        .reply ingress tunnelId (.readData .new []), none, [], none⟩
  | accepted (ingress : Ingress) (tunnelId : Uuid) (h : p.verdict = .ok ingress) :
      ServerAt ⟨none, none, [frameBytes (request p)], [answer ⟨tunnelId, p.serverId⟩],
        .assign ingress tunnelId (.readData .new []), some tunnelId, [], none⟩
  | refused (ac : ApplicationClose)
      (h : p.verdict = .error (.ofConnectionError (.applicationClosed ac))) :
      ServerAt ⟨some .locallyClosed, some ac, [frameBytes (request p)], [],
        .rejected (.ofConnectionError (.applicationClosed ac)), none, [], none⟩

end

def Label.isClients : Label → Bool
  | .openBi | .sendAuth | .toClient | .closeToClient | .clientReadFails | .clientPolls => true
  | _ => false

/-- How far an end still has to go. -/
def clientRank (c : ClientConnection) : ℕ :=
  match c.auth with
  | .openBi => 4
  | .sendAuth => 3
  | .waiting r => if r.isReadable || c.lost.isSome then 1 else 2
  | .returned _ | .panicked => 0

def serverRank (c : ServerConnection) : ℕ :=
  match c.handler with
  | .acceptBi => 6
  | .auth r => if r.isReadable then 4 else 5
  | .lookup .. => 3
  | .checkKey .. => 2
  | .reply .. => 1
  | _ => 0

def rank (s : Handshake) : ℕ := clientRank s.client + serverRank s.server

variable {p : Parties} {c : ClientConnection} {sv : ServerConnection} {s s' : Handshake} {l : Label}

/-- All that a server sends is the answer, when it has accepted. -/
lemma ServerAt.inFlight {chunk : Bytes} (h : ServerAt p sv)
    (hc : inFlight sv.written [] = some chunk) :
    ∃ t, sv.written = [answer t] ∧ chunk = frameBytes (answer t) := by
  cases h with
  | accepted ingress tunnelId hv => exact ⟨_, rfl, (Option.some.inj hc).symm⟩
  | _ => cases hc

/-- A server that has accepted does not close. -/
lemma ServerAt.closeFrame (h : ServerAt p sv) {t : Tunnel} (hw : sv.written = [answer t]) :
    sv.closeFrame = none := by
  cases h with
  | refused ac hv => cases hw
  | _ => rfl

/-- A frame that has been read whole is what a poll returns. -/
lemma poll_frame (f : FrameV1) (leftover : Error) :
    (FramedRead.readData .new (frameBytes f)).poll codecV1.toStreamDecoder leftover =
      .ret (.item (.ok f), .readData .new []) := by
  have hdecode := decode_frameBytes f []
  rw [List.append_nil] at hdecode
  exact FramedRead.poll_whole_frame hdecode

lemma pollAuth_answer (c : ClientConnection) (t : Tunnel) :
    c.pollAuth (.readData .new (frameBytes (answer t))) =
      { c with auth := .returned (.ok t), commands := .commands (.readData .new []) } := by
  simp only [ClientConnection.pollAuth, poll_frame]
  rfl

lemma pollAuth_request (sv : ServerConnection) (p : Parties) :
    sv.pollAuth (.readData .new (frameBytes (request p))) =
      { sv with handler := .lookup p.authKey p.ingressId (.readData .new []) } := by
  simp only [ServerConnection.pollAuth, poll_frame]
  rfl

lemma clientStep_cases {cl : ClientConnection.Label} (hs : s.clientStep p cl = some s') :
    s.clientResult = none ∧ ∃ c', ClientConnection.Step p.authKey p.ingressId s.client cl c' ∧
      s' = { s with client := c' } := by
  simp only [clientStep, Option.ite_none_left_eq_some, Bool.not_eq_true, Option.isSome_eq_false_iff,
    Option.isNone_iff_eq_none, Option.map_eq_some_iff] at hs
  obtain ⟨hr, c', hc, rfl⟩ := hs
  exact ⟨hr, c', ClientConnection.step_cases hc, rfl⟩

lemma serverStep_cases {sl : ServerConnection.Label} (hs : s.serverStep p sl = some s') :
    s.serverResult p.serverId = none ∧
      ∃ sv', ServerConnection.Step p.serverId p.registry.get s.server sl sv' ∧
        s' = { s with server := sv' } := by
  simp only [serverStep, Option.ite_none_left_eq_some, Bool.not_eq_true,
    Option.isSome_eq_false_iff, Option.isNone_iff_eq_none, Option.map_eq_some_iff] at hs
  obtain ⟨hr, sv', hsv, rfl⟩ := hs
  exact ⟨hr, sv', ServerConnection.step_cases hsv, rfl⟩

/-- What a step of the client's leads to. -/
def ClientMoves (p : Parties) (sv : ServerConnection) (c : ClientConnection) (s' : Handshake) :
    Prop :=
  ∃ c', s' = ⟨c', sv⟩ ∧ ClientAt p sv c' ∧ (c' = c ∨ clientRank c' < clientRank c)

theorem ClientAt.step (h : ClientAt p sv c) (hv : ServerAt p sv)
    (hs : step p ⟨c, sv⟩ l = some s') (hl : l.isClients = true) : ClientMoves p sv c s' := by
  cases l with
  | openBi =>
      obtain ⟨-, c', hc, rfl⟩ := clientStep_cases hs
      cases hc with
      | opened hauth =>
          cases h with
          | opening hsv => exact ⟨_, rfl, .sending hsv, Or.inr (Nat.lt_succ_self 3)⟩
          | _ => cases hauth
  | sendAuth =>
      obtain ⟨-, c', hc, rfl⟩ := clientStep_cases hs
      cases hc with
      | sent hauth =>
          cases h with
          | sending hsv => exact ⟨_, rfl, .waiting, Or.inr (Nat.lt_succ_self 2)⟩
          | _ => cases hauth
  | toClient =>
      simp only [Handshake.step, Option.bind_eq_some_iff] at hs
      obtain ⟨chunk, hchunk, hs⟩ := hs
      obtain ⟨hr, c', hc, rfl⟩ := clientStep_cases hs
      cases hc with
      | authData hauth hw =>
          cases h with
          | waiting =>
              cases hauth
              obtain ⟨t, hwritten, rfl⟩ := hv.inFlight hchunk
              exact ⟨_, rfl, .answered t hwritten, Or.inr (Nat.lt_succ_self 1)⟩
          | answered =>
              cases hauth
              cases hw
          | closed ac hac =>
              obtain ⟨t, hwritten, -⟩ := hv.inFlight hchunk
              rw [hv.closeFrame hwritten] at hac
              cases hac
          | _ => cases hauth
      | commandData hcommands =>
          cases h with
          | accepted => cases hr
          | _ => cases hcommands
  | closeToClient =>
      simp only [Handshake.step, Option.bind_eq_some_iff] at hs
      obtain ⟨ac, hac, hs⟩ := hs
      obtain ⟨hr, c', hc, rfl⟩ := clientStep_cases hs
      cases hc with
      | lost hlost =>
          cases h with
          | opening hsv | sending hsv =>
              subst hsv
              cases hac
          | waiting => exact ⟨_, rfl, .closed ac hac, Or.inr (Nat.lt_succ_self 1)⟩
          | answered t hwritten =>
              have hnone : sv.closeFrame = some ac := hac
              rw [hv.closeFrame hwritten] at hnone
              cases hnone
          | accepted => cases hr
          | closed | refused => cases hlost
  | clientReadFails =>
      simp only [Handshake.step, Option.ite_none_left_eq_some, Option.bind_eq_some_iff] at hs
      obtain ⟨-, e, hlost, hs⟩ := hs
      obtain ⟨hr, c', hc, rfl⟩ := clientStep_cases hs
      cases h with
      | closed ac hac =>
          cases hlost
          cases hc with
          | authFails hauth => exact ⟨_, rfl, .refused ac hac, Or.inr Nat.one_pos⟩
          | commandFails hcommands => cases hcommands
      | refused => cases hr
      | _ => cases hlost
  | clientPolls =>
      obtain ⟨hr, c', hc, rfl⟩ := clientStep_cases hs
      cases hc with
      | authPolled hauth =>
          cases h with
          | waiting =>
              cases hauth
              exact ⟨_, rfl, .waiting, Or.inl rfl⟩
          | closed ac hac =>
              cases hauth
              exact ⟨_, rfl, .closed ac hac, Or.inl rfl⟩
          | answered t hwritten =>
              cases hauth
              rw [pollAuth_answer]
              exact ⟨_, rfl, .accepted t hwritten, Or.inr Nat.one_pos⟩
          | _ => cases hauth
      | commandPolled hcommands =>
          cases h with
          | accepted => cases hr
          | _ => cases hcommands
  | _ => cases hl

/-- What a step of the server's leads to. -/
def ServerMoves (p : Parties) (c : ClientConnection) (sv : ServerConnection) (s' : Handshake) :
    Prop :=
  ∃ sv', s' = ⟨c, sv'⟩ ∧ ServerAt p sv' ∧ (sv' = sv ∨ serverRank sv' < serverRank sv)

/-- What the server reads is what the client has sent. -/
lemma ClientAt.inFlight (h : ClientAt p sv c) {chunk : Bytes}
    (hc : inFlight c.written [] = some chunk) : chunk = frameBytes (request p) := by
  cases h with
  | opening | sending => cases hc
  | _ => exact (Option.some.inj hc).symm

/-- A client in the handshake does not close. -/
lemma ClientAt.closeFrame (h : ClientAt p sv c) : c.closeFrame = none := by
  cases h <;> rfl

theorem ServerAt.step (h : ServerAt p sv) (hc : ClientAt p sv c)
    (hs : step p ⟨c, sv⟩ l = some s') (hl : l.isClients = false) : ServerMoves p c sv s' := by
  cases l with
  | acceptBi =>
      simp only [Handshake.step, Option.ite_none_left_eq_some] at hs
      obtain ⟨-, sv', hsv, rfl⟩ := serverStep_cases hs.2
      cases hsv with
      | accepted hhandler =>
          cases h with
          | accepting => exact ⟨_, rfl, .waiting, Or.inr (Nat.lt_succ_self 5)⟩
          | _ => cases hhandler
  | toServer =>
      simp only [Handshake.step, Option.bind_eq_some_iff] at hs
      obtain ⟨chunk, hchunk, hs⟩ := hs
      obtain ⟨-, sv', hsv, rfl⟩ := serverStep_cases hs
      cases hsv with
      | authData hhandler hw =>
          cases h with
          | waiting =>
              cases hhandler
              rw [hc.inFlight hchunk]
              exact ⟨_, rfl, .heard, Or.inr (Nat.lt_succ_self 4)⟩
          | heard =>
              cases hhandler
              cases hw
          | _ => cases hhandler
      | commandData hhandler => cases h <;> cases hhandler
  | closeToServer =>
      simp only [Handshake.step, hc.closeFrame, Option.bind_none] at hs
      cases hs
  | serverReadFails =>
      simp only [Handshake.step, Option.ite_none_left_eq_some, Option.bind_eq_some_iff] at hs
      obtain ⟨-, e, hlost, hs⟩ := hs
      obtain ⟨hr, sv', hsv, rfl⟩ := serverStep_cases hs
      cases h with
      | refused => cases hr
      | _ => cases hlost
  | serverPolls =>
      obtain ⟨-, sv', hsv, rfl⟩ := serverStep_cases hs
      cases hsv with
      | authPolled hhandler =>
          cases h with
          | waiting =>
              cases hhandler
              exact ⟨_, rfl, .waiting, Or.inl rfl⟩
          | heard =>
              cases hhandler
              rw [pollAuth_request]
              exact ⟨_, rfl, .looking, Or.inr (Nat.lt_succ_self 3)⟩
          | _ => cases hhandler
      | commandPolled hhandler => cases h <;> cases hhandler
  | lookup =>
      obtain ⟨-, sv', hsv, rfl⟩ := serverStep_cases hs
      cases hsv with
      | found hhandler hget =>
          cases h with
          | looking =>
              cases hhandler
              exact ⟨_, rfl, .checking _ hget, Or.inr (Nat.lt_succ_self 2)⟩
          | _ => cases hhandler
      | notFound hhandler hget =>
          cases h with
          | looking =>
              cases hhandler
              have hverdict : p.verdict = .error .rejectedIngressId := by
                rw [Parties.verdict, hget]
              exact ⟨_, rfl, .refused ⟨Code.rejectedIngressId, _⟩ hverdict,
                Or.inr (Nat.zero_lt_succ 2)⟩
          | _ => cases hhandler
  | checkKey tunnelId =>
      obtain ⟨-, sv', hsv, rfl⟩ := serverStep_cases hs
      cases hsv with
      | @rightKey ingress _ _ _ hhandler hkey =>
          cases h with
          | checking _ hget =>
              cases hhandler
              have hverdict : p.verdict = .ok ingress := by
                simp only [Parties.verdict, hget]
                rw [if_pos hkey]
              exact ⟨_, rfl, .replying ingress tunnelId hverdict, Or.inr (Nat.lt_succ_self 1)⟩
          | _ => cases hhandler
      | wrongKey hhandler hkey =>
          cases h with
          | checking _ hget =>
              cases hhandler
              have hverdict : p.verdict = .error .rejectedAuthKey := by
                simp only [Parties.verdict, hget]
                rw [if_neg hkey]
              exact ⟨_, rfl, .refused ⟨Code.rejectedAuthKey, _⟩ hverdict,
                Or.inr (Nat.zero_lt_succ 1)⟩
          | _ => cases hhandler
  | reply =>
      obtain ⟨-, sv', hsv, rfl⟩ := serverStep_cases hs
      cases hsv with
      | @replied ingress tunnelId _ hhandler =>
          cases h with
          | replying _ _ hverdict =>
              cases hhandler
              exact ⟨_, rfl, .accepted ingress tunnelId hverdict, Or.inr Nat.one_pos⟩
          | _ => cases hhandler
  | _ => cases hl

/-! ## How it goes on, and how it ends -/

/-- Both ends are where they belong. -/
structure Joined (p : Parties) (s : Handshake) : Prop where
  client : ClientAt p s.server s.client
  server : ServerAt p s.server

lemma joined_new : Joined p new := ⟨.opening rfl, .accepting⟩

/-- A server whose stream has not been opened, or that has returned, has no step. -/
lemma no_server_step (hl : l.isClients = false) (hc : c.closeFrame = none)
    (h : (sv = accepting ∧ c.written = []) ∨
      (serverResult p.serverId ⟨c, sv⟩).isSome = true) : Handshake.step p ⟨c, sv⟩ l = none := by
  rcases h with ⟨rfl, hw⟩ | hr
  · cases l with
    | acceptBi => rw [Handshake.step, if_pos hw]
    | toServer => simp [Handshake.step, hw, Handshake.inFlight]
    | closeToServer => rw [Handshake.step, hc, Option.bind_none]
    | serverReadFails => exact ite_self none
    | serverPolls | lookup | checkKey | reply => rfl
    | _ => cases hl
  · have hstep : ∀ sl, serverStep p ⟨c, sv⟩ sl = none := fun sl => if_pos hr
    cases l with
    | closeToServer => rw [Handshake.step, hc, Option.bind_none]
    | acceptBi | toServer | serverReadFails | serverPolls | lookup | checkKey | reply =>
        simp [Handshake.step, hstep]
    | _ => cases hl

/-- A step of the server's keeps the client where it was. -/
lemma ClientAt.mono {sv' : ServerConnection} (h : ClientAt p sv c) (hv : ServerAt p sv)
    (hs : Handshake.step p ⟨c, sv⟩ l = some ⟨c, sv'⟩) (hl : l.isClients = false) :
    ClientAt p sv' c := by
  have hstuck : ∀ {P : Prop}, (sv = accepting ∧ c.written = []) ∨
      (serverResult p.serverId ⟨c, sv⟩).isSome = true → P := fun hr => by
    rw [no_server_step hl h.closeFrame hr] at hs
    cases hs
  cases h with
  | waiting => exact .waiting
  | opening hsv | sending hsv => exact hstuck (Or.inl ⟨hsv, rfl⟩)
  | answered t hw | accepted t hw =>
      cases hv with
      | accepted => exact hstuck (Or.inr rfl)
      | _ => cases hw
  | closed ac hac | refused ac hac =>
      cases hv with
      | refused => exact hstuck (Or.inr rfl)
      | _ => cases hac

theorem Joined.step (h : Joined p s) (hs : s.step p l = some s') :
    Joined p s' ∧ (s' = s ∨ s'.rank < s.rank) := by
  obtain ⟨c, sv⟩ := s
  cases hl : l.isClients with
  | true =>
      obtain ⟨c', rfl, hat, hrank⟩ := h.client.step h.server hs hl
      refine ⟨⟨hat, h.server⟩, hrank.imp (fun he => by rw [he]) fun hlt => ?_⟩
      exact Nat.add_lt_add_right hlt (serverRank sv)
  | false =>
      obtain ⟨sv', rfl, hat, hrank⟩ := h.server.step h.client hs hl
      refine ⟨⟨h.client.mono h.server hs hl, hat⟩, hrank.imp (fun he => by rw [he]) fun hlt => ?_⟩
      exact Nat.add_lt_add_left hlt (clientRank c)

lemma joined_run {ls : List Label} (h : (system p).Run ls s) : Joined p s := by
  induction h with
  | nil => exact joined_new
  | snoc _ hs ih => exact (ih.step hs).1

/-- As long as one of them has not returned, one of them can go on. -/
theorem Joined.progress (h : Joined p s) (hn : s.isOver p = false) :
    ∃ l s', s.step p l = some s' ∧ s'.rank < s.rank := by
  obtain ⟨c, sv⟩ := s
  obtain ⟨hc, hv⟩ := h
  have hlt : ∀ {m n : ℕ}, m < n → m + serverRank sv < n + serverRank sv := fun h =>
    Nat.add_lt_add_right h _
  cases hc with
  | opening => exact ⟨.openBi, _, rfl, hlt (Nat.lt_succ_self 3)⟩
  | sending => exact ⟨.sendAuth, _, rfl, hlt (Nat.lt_succ_self 2)⟩
  | answered t =>
      refine ⟨.clientPolls, _, rfl, ?_⟩
      rw [pollAuth_answer]
      exact hlt Nat.one_pos
  | closed ac hac =>
      cases hv with
      | refused => exact ⟨.clientReadFails, _, rfl, hlt Nat.one_pos⟩
      | _ => cases hac
  | accepted t hw =>
      cases hv with
      | accepted => cases hn
      | _ => cases hw
  | refused ac hac =>
      cases hv with
      | refused => cases hn
      | _ => cases hac
  | waiting =>
      cases hv with
      | accepting => exact ⟨.acceptBi, _, rfl, Nat.lt_succ_self 7⟩
      | waiting => exact ⟨.toServer, _, rfl, Nat.lt_succ_self 6⟩
      | heard =>
          refine ⟨.serverPolls, _, rfl, ?_⟩
          rw [pollAuth_request]
          exact Nat.lt_succ_self 5
      | looking =>
          refine ⟨.lookup, ?_⟩
          simp only [Handshake.step, serverStep, serverResult, ServerConnection.step]
          cases p.registry.get p.ingressId with
          | none => exact ⟨_, rfl, Nat.lt_of_lt_of_le (Nat.lt_succ_self 2) (Nat.le_add_left 3 2)⟩
          | some ingress => exact ⟨_, rfl, Nat.lt_succ_self 4⟩
      | checking ingress hget =>
          -- whichever id the server draws
          refine ⟨.checkKey ⟨Vector.replicate 16 0⟩, ?_⟩
          simp only [Handshake.step, serverStep, serverResult, ServerConnection.step]
          by_cases hkey : ingress.authKey = p.authKey
          · simp only [hkey, ne_eq, not_true_eq_false, if_false]
            exact ⟨_, rfl, Nat.lt_succ_self 3⟩
          · simp only [hkey, ne_eq, not_false_eq_true, if_true]
            exact ⟨_, rfl, Nat.lt_of_lt_of_le (Nat.lt_succ_self 2) (Nat.le_add_left 3 1)⟩
      | replying => exact ⟨.reply, _, rfl, Nat.lt_succ_self 2⟩
      | accepted => exact ⟨.toClient, _, rfl, Nat.lt_succ_self 1⟩
      | refused => exact ⟨.closeToClient, _, rfl, Nat.lt_succ_self 1⟩

/-- Wherever the two are, they can both return. -/
lemma Joined.ends : ∀ (n : ℕ) {s : Handshake}, Joined p s → s.rank = n →
    ∃ ms s', (system p).exec s ms = some s' ∧ s'.isOver p = true := by
  intro n
  induction n using Nat.strong_induction_on with
  | _ n ih =>
      intro s h hn
      cases ho : s.isOver p with
      | true => exact ⟨[], s, rfl, ho⟩
      | false =>
          obtain ⟨l, s₁, hs, hlt⟩ := h.progress ho
          obtain ⟨ms, s', he, ho'⟩ := ih _ (hn ▸ hlt) (h.step hs).1 rfl
          have hs : (system p).step s l = some s₁ := hs
          exact ⟨l :: ms, s', (System.exec_cons hs ms).trans he, ho'⟩

end Handshake

/-! ## The outcome -/

namespace Parties

variable {p : Parties}

lemma verdict_eq_ok_iff {ingress : Ingress} : p.verdict = .ok ingress ↔
    p.registry.get p.ingressId = some ingress ∧ ingress.authKey = p.authKey := by
  rw [verdict]
  cases p.registry.get p.ingressId with
  | none => simp
  | some g =>
      by_cases hg : g.authKey = p.authKey
      · simp only [if_pos hg, Except.ok.injEq, Option.some.injEq]
        exact ⟨fun h => ⟨h, h ▸ hg⟩, fun h => h.1⟩
      · simp only [if_neg hg, Option.some.injEq, reduceCtorEq, false_iff]
        exact fun h => hg (h.1 ▸ h.2)

lemma verdict_rejectedIngressId_iff : p.verdict = .error .rejectedIngressId ↔
    p.registry.get p.ingressId = none := by
  rw [verdict]
  cases p.registry.get p.ingressId with
  | none => simp
  | some g => by_cases hg : g.authKey = p.authKey <;> simp [hg]

lemma verdict_rejectedAuthKey_iff : p.verdict = .error .rejectedAuthKey ↔
    ∃ ingress, p.registry.get p.ingressId = some ingress ∧ ingress.authKey ≠ p.authKey := by
  rw [verdict]
  cases p.registry.get p.ingressId with
  | none => simp
  | some g => by_cases hg : g.authKey = p.authKey <;> simp [hg]

end Parties

namespace Handshake

variable {p : Parties} {s : Handshake}

/-- Both have returned the verdict. -/
inductive Outcome (p : Parties) (s : Handshake) : Prop
  | accepted (ingress : Ingress) (tunnelId : Uuid) (hv : p.verdict = .ok ingress)
      (hc : s.clientResult = some (.ok ⟨tunnelId, p.serverId⟩))
      (hs : s.serverResult p.serverId = some (.ok (ingress, ⟨tunnelId, p.serverId⟩)))
  | refused (e : Error) (hv : p.verdict = .error e) (hc : s.clientResult = some (.error e))
      (hs : s.serverResult p.serverId = some (.error e))

/-- A client that has returned has returned what the server has. -/
lemma Joined.outcome (h : Joined p s) (hr : s.clientResult.isSome = true) : Outcome p s := by
  obtain ⟨c, sv⟩ := s
  obtain ⟨hc, hv⟩ := h
  cases hc with
  | accepted t hw =>
      cases hv with
      | accepted ingress tunnelId hverdict =>
          simp only [answer, List.cons.injEq, FrameV1.authenticated.injEq, and_true] at hw
          obtain ⟨hid, hserver⟩ := hw
          obtain ⟨id, serverId⟩ := t
          subst hid hserver
          exact .accepted ingress _ hverdict rfl rfl
      | _ => cases hw
  | refused ac hac =>
      cases hv with
      | refused ac' hverdict =>
          cases hac
          exact .refused _ hverdict rfl rfl
      | _ => cases hac
  | _ => cases hr

/-- What the two have returned, side by side and beside the registry. -/
structure Agrees (p : Parties) (s : Handshake) : Prop where
  ok : ∀ t, s.clientResult = some (.ok t) ↔
    ∃ ingress, s.serverResult p.serverId = some (.ok (ingress, t))
  error : ∀ e, s.clientResult = some (.error e) ↔ s.serverResult p.serverId = some (.error e)
  named : ∀ ingress t, s.serverResult p.serverId = some (.ok (ingress, t)) →
    p.registry.get p.ingressId = some ingress ∧ ingress.id = p.ingressId ∧
      ingress.authKey = p.authKey ∧ t.serverId = p.serverId
  rejectedIngressId : s.clientResult = some (.error .rejectedIngressId) ↔
    p.registry.get p.ingressId = none
  rejectedAuthKey : s.clientResult = some (.error .rejectedAuthKey) ↔
    ∃ ingress, p.registry.get p.ingressId = some ingress ∧ ingress.authKey ≠ p.authKey

/-- An error that the client returns is the verdict. -/
lemma Outcome.client_error_iff (h : Outcome p s) (e : Error) :
    s.clientResult = some (.error e) ↔ p.verdict = .error e := by
  cases h with
  | accepted _ _ hv hc _ | refused _ hv hc _ =>
      rw [hc, hv]
      simp

theorem Outcome.agrees (h : Outcome p s) : Agrees p s where
  ok := by
    intro t
    cases h with
    | accepted _ _ _ hc hs | refused _ _ hc hs =>
        rw [hc, hs]
        simp
  error := by
    intro e
    cases h with
    | accepted _ _ _ hc hs | refused _ _ hc hs =>
        rw [hc, hs]
        simp
  named := by
    intro ingress t hok
    cases h with
    | accepted _ _ hv _ hs =>
        rw [hs] at hok
        cases hok
        obtain ⟨hget, hkey⟩ := Parties.verdict_eq_ok_iff.mp hv
        exact ⟨hget, p.registry.id_get _ _ hget, hkey, rfl⟩
    | refused _ _ _ hs =>
        rw [hs] at hok
        cases hok
  rejectedIngressId := by rw [h.client_error_iff, Parties.verdict_rejectedIngressId_iff]
  rejectedAuthKey := by rw [h.client_error_iff, Parties.verdict_rejectedAuthKey_iff]

/-- What a run of the two comes to. -/
structure Concludes (p : Parties) (s : Handshake) : Prop where
  agrees : s.clientResult.isSome = true → s.isOver p = true ∧ Agrees p s
  progress : s.isOver p = false → ∃ l s', s.step p l = some s' ∧ s'.rank < s.rank
  /-- A poll may find nothing; every other step brings the end nearer. -/
  settles : ∀ l s', s.step p l = some s' → s' = s ∨ s'.rank < s.rank
  ends : ∃ ms s', (system p).exec s ms = some s' ∧ s'.isOver p = true

/-- **Client and server agree on the outcome of the handshake**, in every run: both come to return,
and once the client has, the server has too, with the same tunnel or the same error. -/
theorem handshake_agrees {ls : List Label} (h : (system p).Run ls s) : Concludes p s := by
  have hj := joined_run h
  refine ⟨fun hr => ?_, hj.progress, fun l s' hs => (hj.step hs).2, hj.ends _ rfl⟩
  have ho := hj.outcome hr
  refine ⟨?_, ho.agrees⟩
  cases ho with
  | accepted _ _ _ hc hs | refused _ _ hc hs =>
      rw [isOver, hc, hs]
      rfl

/-- A server with one ingress, and a client that names it with the key given. -/
def oneIngress (authKey : AuthKey) : Parties where
  serverId := ⟨"siffleux", by decide, by decide⟩
  registry :=
    let ingress : Ingress := ⟨0, ⟨"i", by decide, by decide⟩, ⟨"k", by decide, by decide⟩⟩
    { get := fun id => if id = ingress.id then some ingress else none
      id_get := by
        intro id g hg
        simp only [Option.ite_none_right_eq_some, Option.some.injEq] at hg
        rw [← hg.2, hg.1] }
  authKey := authKey
  ingressId := ⟨"i", by decide, by decide⟩

/-- The key is right: the tunnel the server has made is the client's.  It is wrong: the code the
server closes with comes back as the server's own error. -/
theorem handshake_agrees_one_ingress :
    (∃ ls s, (system (oneIngress ⟨"k", by decide, by decide⟩)).Run ls s ∧
      (∃ t, s.clientResult = some (.ok t)) ∧
      Concludes (oneIngress ⟨"k", by decide, by decide⟩) s) ∧
    (∃ ls s, (system (oneIngress ⟨"j", by decide, by decide⟩)).Run ls s ∧
      s.clientResult = some (.error .rejectedAuthKey) ∧
      Concludes (oneIngress ⟨"j", by decide, by decide⟩) s) := by
  have hok : (system (oneIngress ⟨"k", by decide, by decide⟩)).Run
      [.openBi, .sendAuth, .acceptBi, .toServer, .serverPolls, .lookup,
        .checkKey ⟨Vector.replicate 16 7⟩, .clientPolls, .reply, .toClient, .clientPolls] _ :=
    System.run_of_exec rfl
  have hrejected : (system (oneIngress ⟨"j", by decide, by decide⟩)).Run
      [.openBi, .sendAuth, .acceptBi, .serverPolls, .toServer, .serverPolls, .lookup,
        .checkKey ⟨Vector.replicate 16 7⟩, .closeToClient, .clientReadFails] _ :=
    System.run_of_exec rfl
  exact ⟨⟨_, _, hok, ⟨_, rfl⟩, handshake_agrees hok⟩,
    ⟨_, _, hrejected, rfl, handshake_agrees hrejected⟩⟩

end Handshake

end Siffleux
