import Siffleux.Common.Frames.Decisions
import Siffleux.EndToEnd.CommandStream

/-!
# How much the other side can make one buffer

A `FramedRead` puts what it has read into a buffer until the decoder takes it out.  Anyone can open
a connection to the server and write to its first stream, so this is what a stranger can make the
server hold.

The decoder waits for 65538 bytes at most, three of the header and as many as it declares, unless
the first byte is no frame type: then it waits for good, and the buffer takes in all that is sent.

* `decode_waitsWithin` — the decoder, for what `FramedRead.Fits` asks of it.
* `ServerConnection.BufferFits`, `ClientConnection.BuffersFit` — the readers of either side.
* `buffers_bounded_unless_stalled` — what the readers hold, in every run.
-/

namespace Siffleux

open ByteBuf Framing Transition

/-- The header, and the greatest length it can declare. -/
def maxFrameLength : ℕ := 3 + 65535

/-- A payload frame that is waited for declares more than there is. -/
lemma length_lt_of_decode_none {b : Bytes} (h : decode b = .ret (.ok none, b))
    (hs : StartsPayloadFrame b) : b.length < maxFrameLength := by
  obtain ⟨ty, rd, bs, hp, rfl⟩ := hs.exists_prefixed
  match bs, h with
  | [], _ => simp [maxFrameLength]
  | [_], _ => simp [maxFrameLength]
  | hi :: lo :: body, h =>
      have hdeclared := (fromBeBytes hi lo).toNat_lt
      have hlt : body.length < (fromBeBytes hi lo).toNat := by
        by_contra hge
        rw [decode_prefixed hp, if_neg hge] at h
        exact payload_ne_none hp h rfl
      simp only [List.length_cons, maxFrameLength]
      omega

lemma decode_shrinks {b b' : Bytes} {d : Except Error (Option FrameV1)}
    (h : decode b = .ret (d, b')) : b'.length ≤ b.length := by
  rcases decode_cases h with ⟨-, rfl⟩ | ⟨-, rfl⟩ | ⟨-, rfl⟩ | ⟨ty, rd, hi, lo, body, hp, rfl, hr⟩
  · exact Nat.le_refl _
  · exact Nat.le_succ _
  · exact Nat.le_succ _
  · obtain ⟨taken, rfl, -⟩ := payload_append hp hr []
    simp only [List.length_cons, List.length_append]
    omega

theorem decode_waitsWithin : codecV1.toStreamDecoder.WaitsWithin maxFrameLength where
  waits b b' h := by
    obtain rfl := decode_none_keeps h
    refine ⟨rfl, ?_⟩
    by_cases hb : b' = []
    · subst hb
      exact Or.inr (by decide)
    · by_cases hs : StartsPayloadFrame b'
      · exact Or.inr (length_lt_of_decode_none h hs)
      · exact Or.inl (decode_unknown hb h hs)
  shrinks _ _ _ h := decode_shrinks h

/-- The readers of either side, when reads have `n` bytes at most. -/
abbrev ReaderFits (n : ℕ) (r : FramedRead) : Prop :=
  r.Fits codecV1.toStreamDecoder maxFrameLength n

lemma readerFits_new (n : ℕ) : ReaderFits n .new := FramedRead.fits_new (by decide)

/-! ## The server's readers -/

namespace ServerConnection

variable {serverId : ServerId} {registry : IngressId → Option Ingress} {c c' : ServerConnection}
  {l : Label} {n : ℕ}

def BufferFits (n : ℕ) (c : ServerConnection) : Prop :=
  ∀ r, reader c.handler = some r → ReaderFits n r

/-- A read has `n` bytes at most. -/
def Label.ReadsAtMost (n : ℕ) (l : Label) : Prop := ∀ chunk, l = .readData chunk → chunk.length ≤ n

lemma bufferFits_none (h : reader c.handler = none) : c.BufferFits n := by
  intro r hr
  rw [h] at hr
  cases hr

lemma bufferFits_some {r : FramedRead} (h : reader c.handler = some r) (hf : ReaderFits n r) :
    c.BufferFits n := by
  intro r' hr
  rw [h] at hr
  exact Option.some.inj hr ▸ hf

lemma BufferFits.of_handler (h : c.BufferFits n) (hr : reader c'.handler = reader c.handler) :
    c'.BufferFits n := by
  intro r hc
  exact h r (hr.symm.trans hc)

lemma bufferFits_pollAuth {r : FramedRead} (he : r.hasErrored = false) (hf : ReaderFits n r) :
    (c.pollAuth r).BufferFits n := by
  rw [pollAuth]
  split
  · exact bufferFits_none rfl
  · rename_i r' hp
    exact bufferFits_some rfl (hf.poll decode_waitsWithin he hp)
  · exact bufferFits_none rfl
  · rename_i frame r' hp
    have hf' := hf.poll decode_waitsWithin he hp
    cases frame with
    | auth k i => exact bufferFits_some rfl hf'
    | _ => exact bufferFits_none rfl
  · exact bufferFits_none rfl

lemma bufferFits_pollCommands {tunnelId : Uuid} {r : FramedRead} (he : r.hasErrored = false)
    (hf : ReaderFits n r) : (c.pollCommands tunnelId r).BufferFits n := by
  rw [pollCommands]
  split
  · exact bufferFits_none rfl
  · rename_i r' hp
    exact bufferFits_some rfl (hf.poll decode_waitsWithin he hp)
  · exact bufferFits_none rfl
  · rename_i r' hp
    exact bufferFits_some rfl (hf.poll decode_waitsWithin he hp)
  · rename_i frame r' _ hp
    exact bufferFits_some rfl (hf.poll decode_waitsWithin he hp)
  · rw [onCommandError]
    split <;> exact bufferFits_none rfl

theorem BufferFits.step (h : c.BufferFits n) (hr : c.ReaderSound) (hn : l.ReadsAtMost n)
    (hs : c.step serverId registry l = some c') : c'.BufferFits n := by
  cases step_cases hs with
  | @handshaken ok hc => cases ok <;> exact bufferFits_none rfl
  | accepted hc => exact bufferFits_some rfl (readerFits_new n)
  | noStream hc => exact bufferFits_none rfl
  | @authData r chunk hc hw | @commandData _ r chunk hc hw =>
      exact bufferFits_some rfl ((h r (by rw [hc]; rfl)).readData hw (hn chunk rfl))
  | @authEof r hc | @commandEof _ r hc =>
      exact bufferFits_some rfl (h r (by rw [hc]; rfl)).readEof
  | authFails hc | timedOut hc | notFound hc | wrongKey hc => exact bufferFits_none rfl
  | commandFails hc =>
      rw [onCommandError]
      split <;> exact bufferFits_none rfl
  | @authPolled r hc => exact bufferFits_pollAuth (hr r (by rw [hc]; rfl)) (h r (by rw [hc]; rfl))
  | @commandPolled tunnelId r hc =>
      exact bufferFits_pollCommands (hr r (by rw [hc]; rfl)) (h r (by rw [hc]; rfl))
  | found hc | rightKey hc | replied hc | assignCalled hc | assignReturned hc =>
      exact h.of_handler (by rw [hc]; rfl)
  | @pinged tunnelId r failure hc | @ponged tunnelId r failure hc =>
      cases failure with
      | none => exact h.of_handler (by rw [hc]; rfl)
      | some e => exact bufferFits_none rfl
  | replyFails hc | tunnelClosed hc => exact bufferFits_none rfl

/-- A handshake behind an octet that begins no frame goes on waiting. -/
lemma pollAuth_of_stalls {r : FramedRead} (h : codecV1.toStreamDecoder.Stalls r.buffer)
    (he : r.hasErrored = false) (ho : r.eof = false) :
    c.pollAuth r = { c with handler := .auth { r with isReadable := false } } := by
  rw [pollAuth, FramedRead.poll_of_stalls h he ho]

/-- What is kept of a connection's reader. -/
structure ReaderKept (n : ℕ) (c : ServerConnection) : Prop where
  sound : c.ReaderSound
  fits : c.BufferFits n

lemma readerKept_none (h : reader c.handler = none) : c.ReaderKept n :=
  ⟨readerSound_none h, bufferFits_none h⟩

lemma ReaderKept.of_handler (h : c.ReaderKept n) (hr : reader c'.handler = reader c.handler) :
    c'.ReaderKept n := ⟨h.sound.of_handler hr, h.fits.of_handler hr⟩

lemma ReaderKept.step (h : c.ReaderKept n) (hn : l.ReadsAtMost n)
    (hs : c.step serverId registry l = some c') : c'.ReaderKept n :=
  ⟨h.sound.step hs, h.fits.step h.sound hn hs⟩

end ServerConnection

namespace Server

variable {serverId : ServerId} {s : Server} {ls : List Label} {n : ℕ}

lemma readerKept_run (h : (system serverId).Run ls s)
    (hn : ∀ k l, .handler k l ∈ ls → l.ReadsAtMost n) (k : ℕ) : (s.connection k).ReaderKept n := by
  induction h with
  | nil => exact ServerConnection.readerKept_none rfl
  | @snoc ls s s' l _ hs ih =>
      have hi := ih fun j hl hmem => hn j hl (List.mem_append_left _ hmem)
      cases connection_moved hs k with
      | same he =>
          rw [he]
          exact hi
      | lost e _ he =>
          rw [he]
          exact hi.of_handler rfl
      | spawned _ he =>
          rw [he]
          exact ServerConnection.readerKept_none rfl
      | closed code reason he =>
          rw [he]
          exact hi.of_handler (by rw [ServerConnection.close_handler])
      | task hl he hc =>
          subst he
          exact hi.step (hn k hl (by simp)) hc

/-! ## A stranger's buffer -/

/-- A stranger's connection, and the first octet it writes. -/
def strangersRun : List Label :=
  [.listen, .incoming 0 0, .handler 0 (.handshake true), .handler 0 (.acceptBi none),
    .handler 0 (.readData [2]), .handler 0 .poll]

/-- The octet 2 is no frame type, so nothing behind it is taken off the buffer. -/
lemma stalls_two (b : Bytes) : codecV1.toStreamDecoder.Stalls (2 :: b) :=
  fun t => decode_other (b ++ t) (by decide) (by decide) (by decide) (by decide)

lemma strangersRun_readsAtMost (k : ℕ) (l : ServerConnection.Label)
    (h : .handler k l ∈ strangersRun) : l.ReadsAtMost 1 := by
  rintro chunk rfl
  simp [strangersRun] at h
  obtain ⟨rfl, rfl⟩ := h
  decide

/-- The buffer behind it comes to any length, one octet at a time. -/
lemma exists_buffer_of_length (serverId : ServerId) (m : ℕ) : ∃ ls s,
    (system serverId).Run ls s ∧ (∀ k l, .handler k l ∈ ls → l.ReadsAtMost 1) ∧
    (s.connection 0).handler = .auth ⟨2 :: List.replicate m 0, false, false, false⟩ := by
  induction m with
  | zero =>
      exact ⟨strangersRun, _, System.run_of_exec rfl, strangersRun_readsAtMost, rfl⟩
  | succ m ih =>
      obtain ⟨ls, s, hrun, hn, hh⟩ := ih
      -- one more octet arrives, and is waited behind like the others
      let c := { s.connection 0 with
        reads := (s.connection 0).reads ++ [[0]]
        handler := .auth ⟨2 :: (List.replicate m 0 ++ [0]), true, false, false⟩ }
      have hread : (system serverId).step s (.handler 0 (.readData [0])) =
          some (s.setConnection 0 c) := by
        simp [c, system, Server.step, waitsForRegistry, ServerConnection.step, hh,
          FramedRead.wantsRead, FramedRead.readData]
      have hpoll : (system serverId).step (s.setConnection 0 c) (.handler 0 .poll) =
          some ((s.setConnection 0 c).setConnection 0 (c.pollAuth
            ⟨2 :: (List.replicate m 0 ++ [0]), true, false, false⟩)) := by
        simp [c, system, Server.step, waitsForRegistry, ServerConnection.step]
      refine ⟨_, _, (hrun.snoc hread).snoc hpoll, ?_, ?_⟩
      · rintro k l hmem chunk rfl
        have hl : Label.handler k (.readData chunk) ∈ ls ∨ chunk = [0] := by
          simp at hmem
          tauto
        rcases hl with hl | rfl
        · exact hn k _ hl chunk rfl
        · decide
      · rw [ServerConnection.pollAuth_of_stalls (stalls_two _) rfl rfl, List.replicate_succ']
        simp

end Server

/-! ## The client's readers -/

namespace ClientConnection

variable {authKey : AuthKey} {ingressId : IngressId} {c c' : ClientConnection} {l : Label} {n : ℕ}

structure BuffersFit (n : ℕ) (c : ClientConnection) : Prop where
  auth : ∀ r, authReader c.auth = some r → ReaderFits n r
  commands : ∀ r, commandsReader c.commands = some r → ReaderFits n r

/-- A read has `n` bytes at most. -/
def Label.ReadsAtMost (n : ℕ) (l : Label) : Prop := ∀ chunk, l = .readData chunk → chunk.length ≤ n

lemma BuffersFit.auth_close (h : c.BuffersFit n) (code : VarInt) (reason : Bytes) {r : FramedRead}
    (hr : authReader (c.close code reason).auth = some r) : ReaderFits n r := by
  rw [close_auth] at hr
  exact h.auth r hr

lemma BuffersFit.commands_close (h : c.BuffersFit n) (code : VarInt) (reason : Bytes)
    {r : FramedRead} (hr : commandsReader (c.close code reason).commands = some r) :
    ReaderFits n r := by
  rw [close_commands] at hr
  exact h.commands r hr

lemma buffersFit_pollAuth (h : c.BuffersFit n) {r : FramedRead} (he : r.hasErrored = false)
    (hf : ReaderFits n r) : (c.pollAuth r).BuffersFit n := by
  rw [pollAuth]
  split
  · exact ⟨fun _ hr => (by cases hr), h.commands⟩
  · rename_i r' hp
    have hf' := hf.poll decode_waitsWithin he hp
    exact ⟨fun _ hr => Option.some.inj hr ▸ hf', h.commands⟩
  · exact ⟨fun _ hr => (by cases hr), h.commands⟩
  · rename_i frame r' hp
    have hf' := hf.poll decode_waitsWithin he hp
    cases frame with
    | authenticated => exact ⟨fun _ hr => (by cases hr), fun _ hr => Option.some.inj hr ▸ hf'⟩
    | _ => exact ⟨fun _ hr => (by cases hr), fun _ => h.commands_close _ _⟩
  · exact ⟨fun _ hr => (by cases hr), fun _ => h.commands_close _ _⟩

lemma buffersFit_onCommandError (h : c.BuffersFit n) (e : Error) :
    (c.onCommandError e).BuffersFit n := by
  rw [onCommandError]
  split
  · exact ⟨h.auth, fun _ hr => by cases hr⟩
  · exact ⟨fun _ => h.auth_close _ _, fun _ hr => by cases hr⟩

lemma buffersFit_pollCommands (h : c.BuffersFit n) {r : FramedRead} (he : r.hasErrored = false)
    (hf : ReaderFits n r) : (c.pollCommands r).BuffersFit n := by
  rw [pollCommands]
  split
  · exact ⟨h.auth, fun _ hr => by cases hr⟩
  · rename_i r' hp
    have hf' := hf.poll decode_waitsWithin he hp
    exact ⟨h.auth, fun _ hr => Option.some.inj hr ▸ hf'⟩
  · exact ⟨fun _ => h.auth_close _ _, fun _ hr => by cases hr⟩
  · rename_i r' hp
    have hf' := hf.poll decode_waitsWithin he hp
    exact ⟨h.auth, fun _ hr => Option.some.inj hr ▸ hf'⟩
  · rename_i frame r' _ hp
    have hf' := hf.poll decode_waitsWithin he hp
    exact ⟨h.auth, fun _ hr => Option.some.inj hr ▸ hf'⟩
  · exact buffersFit_onCommandError h _

theorem BuffersFit.step (h : c.BuffersFit n) (hr : c.ReadersSound) (hn : l.ReadsAtMost n)
    (hs : c.step authKey ingressId l = some c') : c'.BuffersFit n := by
  cases step_cases hs with
  | opened | openFails | sendFails => exact ⟨fun _ hr => (by cases hr), h.commands⟩
  | sent => exact ⟨fun _ hr => Option.some.inj hr ▸ readerFits_new n, h.commands⟩
  | @authData r chunk hc hw =>
      have hf := (h.auth r (by rw [hc]; rfl)).readData hw (hn chunk rfl)
      exact ⟨fun _ hr => Option.some.inj hr ▸ hf, h.commands⟩
  | @commandData r chunk hc hw =>
      have hf := (h.commands r (by rw [hc]; rfl)).readData hw (hn chunk rfl)
      exact ⟨h.auth, fun _ hr => Option.some.inj hr ▸ hf⟩
  | @authEof r hc =>
      have hf := (h.auth r (by rw [hc]; rfl)).readEof
      exact ⟨fun _ hr => Option.some.inj hr ▸ hf, h.commands⟩
  | @commandEof r hc =>
      have hf := (h.commands r (by rw [hc]; rfl)).readEof
      exact ⟨h.auth, fun _ hr => Option.some.inj hr ▸ hf⟩
  | authFails | timedOut => exact ⟨fun _ hr => (by cases hr), fun _ => h.commands_close _ _⟩
  | commandFails => exact buffersFit_onCommandError h _
  | @authPolled r hc =>
      exact buffersFit_pollAuth h (hr.auth r (by rw [hc]; rfl)) (h.auth r (by rw [hc]; rfl))
  | @commandPolled r hc =>
      exact buffersFit_pollCommands h (hr.commands r (by rw [hc]; rfl))
        (h.commands r (by rw [hc]; rfl))
  | pinged | lost => exact ⟨h.auth, h.commands⟩
  | pingFails => exact ⟨fun _ => h.auth_close _ _, fun _ hr => by cases hr⟩
  | @ponged r _ _ hc =>
      have hf := h.commands r (by rw [hc]; rfl)
      exact ⟨h.auth, fun _ hr => Option.some.inj hr ▸ hf⟩
  | closed => exact ⟨fun _ => h.auth_close _ _, fun _ => h.commands_close _ _⟩

theorem buffersFit_run {ls : List Label} (h : (system authKey ingressId).Run ls c)
    (hn : ∀ l ∈ ls, l.ReadsAtMost n) : c.BuffersFit n := by
  induction h with
  | nil => exact ⟨fun _ hr => (by cases hr), fun _ hr => by cases hr⟩
  | @snoc ls c c' l hr hs ih =>
      have hi := ih fun m hm => hn m (List.mem_append_left _ hm)
      obtain ⟨-, hs'⟩ := Option.ite_none_right_eq_some.mp hs
      exact hi.step (taskSound_run hr).readers (hn l (by simp)) hs'

end ClientConnection

/-! ## Both sides -/

/-- **A reader holds less than one frame and one read, or it is stalled.**  In every run of the
server, whatever its strangers and its clients send, and in every run of a client, whatever its
server sends: with reads of `n` bytes at most, a buffer holds less than 65538 + `n` bytes unless the
decoder will wait on it for good, whatever comes.  Such a buffer has no bound: before it has
authenticated, a connection can make the server's as long as it likes. -/
theorem buffers_bounded_unless_stalled {serverId : ServerId} {ls : List Server.Label} {s : Server}
    {authKey : AuthKey} {ingressId : IngressId} {cls : List ClientConnection.Label}
    {c : ClientConnection} {n : ℕ} (h : (Server.system serverId).Run ls s)
    (hn : ∀ k l, .handler k l ∈ ls → l.ReadsAtMost n)
    (hc : (ClientConnection.system authKey ingressId).Run cls c)
    (hcn : ∀ l ∈ cls, l.ReadsAtMost n) :
    (∀ k r, ServerConnection.reader (s.connection k).handler = some r →
      codecV1.toStreamDecoder.Stalls r.buffer ∨ r.buffer.length < maxFrameLength + n) ∧
    (∀ r, ClientConnection.authReader c.auth = some r ∨
        ClientConnection.commandsReader c.commands = some r →
      codecV1.toStreamDecoder.Stalls r.buffer ∨ r.buffer.length < maxFrameLength + n) ∧
    ∀ m, ∃ ls' s' r, (Server.system serverId).Run ls' s' ∧
      (∀ k l, .handler k l ∈ ls' → l.ReadsAtMost 1) ∧
      (s'.connection 0).handler = .auth r ∧ m ≤ r.buffer.length := by
  refine ⟨?_, ?_, ?_⟩
  · intro k r hr
    exact ((Server.readerKept_run h hn k).fits r hr).length_lt
  · have hfit := ClientConnection.buffersFit_run hc hcn
    rintro r (hr | hr)
    · exact (hfit.auth r hr).length_lt
    · exact (hfit.commands r hr).length_lt
  · intro m
    obtain ⟨ls', s', hrun, hreads, hh⟩ := Server.exists_buffer_of_length serverId m
    exact ⟨ls', s', _, hrun, hreads, hh, by simp⟩

/-- A client that has sent its first frame, and has read the type of the answer. -/
def firstReadRun : List ClientConnection.Label :=
  [.openBi none, .sendAuth none, .readData [authenticatedType]]

/-- The server's buffer is stalled there, and the client's is not. -/
theorem buffers_bounded_unless_stalled_first :
    (codecV1.toStreamDecoder.Stalls [2] ∨ ([2] : Bytes).length < maxFrameLength + 1) ∧
    (codecV1.toStreamDecoder.Stalls [authenticatedType] ∨
      [authenticatedType].length < maxFrameLength + 1) := by
  have h : (Server.system Server.serverS).Run Server.strangersRun _ := System.run_of_exec rfl
  have hc : (ClientConnection.system Server.ingressB.authKey Server.ingressB.id).Run
      firstReadRun _ := System.run_of_exec rfl
  have hcn : ∀ l ∈ firstReadRun, l.ReadsAtMost 1 := by
    rintro l hl chunk rfl
    simp [firstReadRun] at hl
    subst hl
    decide
  have hb := buffers_bounded_unless_stalled h Server.strangersRun_readsAtMost hc hcn
  exact ⟨hb.1 0 ⟨[2], false, false, false⟩ rfl,
    hb.2.1 ⟨[authenticatedType], true, false, false⟩ (Or.inl rfl)⟩

end Siffleux
