import Siffleux.Cli.Client.Phases

/-!
# The client program comes up

The way of the main thread to its wait, one egress after the other: looked up, started, assigned.

* `launchRank` — the steps left, of which `start` has its share.
* `launch_comes_up` — the program comes up exactly with distinct ids and with egresses that can be
  looked up.
-/

namespace Siffleux

open ByteBuf Transition

namespace LaunchClient

variable {configs : List EgressConfig} {look : Lookup} {p : Profile} {s s' : LaunchClient configs}
  {l : Label configs} {ls : List (Label configs)}

/-- A lookup finds its address. -/
def Resolves (_ : LaunchClient configs) : Label configs → Prop
  | .resolve target server => target.isSome = true ∧ server.isSome = true
  | _ => True

/-- The steps of the main thread on its way up. -/
def launches (_ : LaunchClient configs) : Label configs → Bool
  | .resolve _ _ | .started | .assign => true
  | .egress _ l => isStart l
  | _ => false

def startLeft : StartPc → ℕ
  | .notCalled => 6
  | pc => StartPc.rank pc

/-- The steps left until all egresses are up. -/
def launchRank (s : LaunchClient configs) : ℕ :=
  match s.pc with
  | .lookup k => 9 * (configs.length - k)
  | .starting k => 9 * (configs.length - k - 1) + 2 + startLeft ((s.egress k).startCall 0)
  | .assigning k => 9 * (configs.length - k - 1) + 1
  | _ => 0

/-- The ids differ, the addresses can be found and the hashes can be read. -/
def WellFormed (look : Lookup) (configs : List EgressConfig) : Prop :=
  (configs.map EgressConfig.id).Nodup ∧ ∀ config ∈ configs, config.IsUsable look

lemma startLeft_step {L : MainLoop} {g g' : Egress L} {l : Egress.Label L} (h : g.Owned)
    (hok : g.OwnCall l) (hs : Egress.step p g l = some g') :
    startLeft (g'.startCall 0) + (isStart l).toNat ≤ startLeft (g.startCall 0) := by
  cases Egress.step_cases hs with
  | task ht =>
      have hl : isStart l = false := by cases ht <;> rfl
      obtain ⟨i, pc, published, -, rfl, -⟩ := ht.moves
      rw [hl]
      exact Nat.le_refl _
  | call hcall =>
      cases hcall with
      | @startLock c hc hl =>
          obtain rfl : c = 0 := hok
          simp [startLeft, StartPc.rank, hc, isStart, Egress.setStart]
      | @startRefused c i hc | @startChecked c hc | @startSend c hc | @startWrite c hc
      | @startSpawn c hc | @startStore c i hc =>
          obtain rfl := h.start_eq (c := c) (by simp [hc])
          simp [startLeft, StartPc.rank, hc, isStart, Egress.setStart, Egress.setTask]
      | stopTake | stopRefused | stopCancel | stopJoined | stopJoinFails | stopSend =>
          exact Nat.le_refl _

lemma Sound.launch_step (h : Sound look s) (hw : WellFormed look configs)
    (hpc : s.pc ≠ .panicked) (hok : Resolves s l) (hs : LaunchClient.step look p s l = some s') :
    s'.pc ≠ .panicked ∧ launchRank s' + (launches s l).toNat ≤ launchRank s := by
  cases step_cases hs with
  | @resolved k config target server hk hc ht hserver hd =>
      refine ⟨by simp, ?_⟩
      have hlt := h.place k (Or.inl hk)
      have hphase := h.phase k
      rw [hk] at hphase
      simp only [phaseOf, lt_irrefl, if_false] at hphase
      simp only [launchRank, launches, hk, hphase.1, startLeft, Bool.toNat_true]
      omega
  | @unresolved k config target server hk hc hd =>
      have hdec := (hw.2 config (List.mem_of_getElem? hc)).decoded
      rcases hd with rfl | rfl | hd
      · cases hok.1
      · cases hok.2
      · rw [hd] at hdec
        cases hdec
  | @started k hk hstart =>
      refine ⟨by simp, ?_⟩
      simp [launchRank, launches, hk, hstart, startLeft, StartPc.rank]
  | startPanics hk hstart => exact absurd hstart (h.owned _).unrefused.1
  | @assigned k config hk hc hn =>
      have hlt := h.place k (Or.inr (Or.inr hk))
      simp only [launchRank, launches, hk, entry, Bool.toNat_true]
      split_ifs with hnext
      · refine ⟨by simp, ?_⟩
        simp only
        omega
      · refine ⟨by simp, ?_⟩
        simp only
        omega
  | @assignPanics k config hk hc hn =>
      rw [h.ids (by rw [hk]; rfl), hk] at hn
      have hnodup : ((configs.take (k + 1)).map EgressConfig.id).Nodup :=
        (((List.take_sublist (k + 1) configs).map EgressConfig.id)).nodup hw.1
      rw [List.take_add_one, hc, List.map_append] at hnodup
      have hdisj := List.disjoint_of_nodup_append hnodup
      exact absurd (List.mem_singleton_self config.id) (hdisj hn)
  | signalled hk => exact ⟨by simp, by simp [launchRank, launches, hk]⟩
  | drained hk => exact ⟨by simp, by simp [launchRank, launches, hk]⟩
  | stopped hk => exact ⟨by simp, by simp [launchRank, launches, hk]⟩
  | allStopped hk => exact ⟨by simp, by simp [launchRank, launches, hk]⟩
  | @egress k l g hp hg =>
      refine ⟨hpc, ?_⟩
      have hleft := startLeft_step (h.owned k) (h.ownCall hp) hg
      cases hl : isStart l with
      | true =>
          rw [hl, Bool.toNat_true] at hleft
          simp only [launchRank, launches, starting_of_permits hp hl, Function.update_self, hl,
            Bool.toNat_true]
          omega
      | false =>
          simp only [launchRank, launches, hl, Bool.toNat_false, Nat.add_zero]
          cases hs : s.pc with
          | starting j =>
              rcases eq_or_ne j k with rfl | hne
              · simp only [Function.update_self]
                omega
              · simp only [Function.update_of_ne hne]
                exact Nat.le_refl _
          | _ => exact Nat.le_refl _

lemma permits_of_isStartStep {L : MainLoop} {g : Egress L} {l : Egress.Label L} {pc : LaunchPc}
    {k : ℕ} (hpc : pc.isStartingOf k = true) (h : Egress.isStartStep 0 g l = true) :
    isStart l = true ∧ permits pc k l = true := by
  cases l with
  | startCheck | startSend | startWrite | startSpawn | startStore =>
      simp only [Egress.isStartStep, decide_eq_true_eq] at h
      simp [isStart, permits, h, hpc]
  | _ => cases h

/-- As long as not all egresses are up, the thread can go on. -/
lemma Sound.launch_progress (h : Sound look s) (hw : WellFormed look configs)
    (hpc : s.pc ≠ .panicked) (hn : s.pc.isUp = false) :
    ∃ l, launches s l = true ∧ Resolves s l ∧ (LaunchClient.step look p s l).isSome = true := by
  cases hk : s.pc with
  | panicked => exact absurd hk hpc
  | waiting | draining | stopping | returned => simp [hk, LaunchPc.isUp] at hn
  | lookup k =>
      have hlt := h.place k (Or.inl hk)
      have hu := hw.2 configs[k] (List.getElem_mem hlt)
      obtain ⟨target, ht⟩ := hu.target
      obtain ⟨server, hserver⟩ := hu.server
      refine ⟨.resolve (some target) (some server), rfl, ⟨rfl, rfl⟩, ?_⟩
      simp [LaunchClient.step, hk, hlt, resolve, Lookup.mayAnswer, ht, hserver]
  | assigning k =>
      have hlt := h.place k (Or.inr (Or.inr hk))
      refine ⟨.assign, rfl, trivial, ?_⟩
      simp [LaunchClient.step, hk, hlt]
  | starting k =>
      cases hstart : (s.egress k).startCall 0 with
      | refused => exact absurd hstart (h.owned k).unrefused.1
      | returned => exact ⟨.started, rfl, trivial, by simp [LaunchClient.step, hk, hstart]⟩
      | notCalled =>
          have hlock : (s.egress k).processLock = none := by
            rw [Option.eq_none_iff_forall_ne_some]
            intro c hc
            have hlocked := ((h.locks k).lock c).mpr hc
            obtain rfl := (h.owned k).start_eq (c := c) (by
              intro hnone
              rw [hnone] at hlocked
              cases hlocked)
            rw [hstart] at hlocked
            cases hlocked
          refine ⟨.egress k (.startLock 0), rfl, trivial, ?_⟩
          simp [LaunchClient.step, permits, hk, LaunchPc.isStartingOf, Egress.step, Egress.callStep,
            hstart, hlock]
      | check | send | write | spawn | store =>
          obtain ⟨l, hl, hen⟩ := Egress.start_enabled (p := p) (h.locks k) (c := 0)
            (by rw [hstart]; rfl)
          obtain ⟨hl, hpermits⟩ := permits_of_isStartStep
            (show s.pc.isStartingOf k = true by simp [hk, LaunchPc.isStartingOf]) hl
          refine ⟨.egress k l, hl, trivial, ?_⟩
          simpa [LaunchClient.step, hpermits] using hen

/-- A program that is up has had distinct ids and egresses that can be looked up. -/
lemma Sound.wellFormed (h : Sound look s) (hup : s.pc.isUp = true) : WellFormed look configs := by
  have hdistinct := h.distinct
  have husable := h.usable
  cases hk : s.pc with
  | lookup | starting | assigning | panicked => simp [hk, LaunchPc.isUp] at hup
  | waiting | draining | stopping | returned =>
      rw [hk] at hdistinct husable
      simp only [assigned, LaunchClient.resolved, List.take_length] at hdistinct husable
      exact ⟨hdistinct, husable⟩

lemma Sound.launchRank_le (h : Sound look s) : launchRank s ≤ 9 * configs.length := by
  have hle : ∀ pc : StartPc, startLeft pc ≤ 6 := fun pc => by
    cases pc <;> simp [startLeft, StartPc.rank]
  rw [launchRank]
  split
  · omega
  · rename_i k hk
    have := h.place k (Or.inr (Or.inl hk))
    have := hle ((s.egress k).startCall 0)
    omega
  · rename_i k hk
    have := h.place k (Or.inr (Or.inr hk))
    omega
  · exact Nat.zero_le _

/-- With these the thread does not stop on its way up. -/
theorem Sound.ensures_up (h : Sound look s) (hw : WellFormed look configs)
    (hpc : s.pc ≠ .panicked) : (system look configs p).Ensures launches Resolves
      (fun t => t.pc.isUp = true) (9 * configs.length) s := by
  refine System.ensures_of_variant (fun t => Sound look t ∧ t.pc ≠ .panicked) launchRank ?_ ?_
    ⟨h, hpc⟩ h.launchRank_le
  · rintro t l t' ⟨ht, hpt⟩ hok hs
    obtain ⟨hpt', hle⟩ := ht.launch_step hw hpt hok hs
    exact ⟨⟨ht.step hs, hpt'⟩, hle⟩
  · rintro t ⟨ht, hpt⟩ hn
    exact ht.launch_progress hw hpt (by simpa using hn)

/-- **The program comes up exactly with distinct ids and with egresses that can be looked up**, in a
build whose panics unwind: then the main thread never panics, as long as every lookup finds its
address, and all egresses are started and assigned within nine steps of its own for each, whatever
the tunnel tasks do. -/
theorem launch_comes_up (h : (system look configs p).Run ls s) :
    (s.pc.isUp = true → WellFormed look configs) ∧
    (WellFormed look configs → s.pc ≠ .panicked →
      (system look configs p).Ensures launches Resolves (fun t => t.pc.isUp = true)
        (9 * configs.length) s) :=
  ⟨(sound_run h).wellFormed, (sound_run h).ensures_up⟩

/-! ## A client with two egresses -/

def pinned : AuthenticationConfig := ⟨"127.0.0.1:8765", "AQ==", defaultServerTlsSubjectAltName⟩

/-- Egresses `c` and `d` for an ingress of the same name each. -/
def twoEgresses : List EgressConfig :=
  [.tcp ⟨pinned, ⟨"c", by decide, by decide⟩, ⟨"c", by decide, by decide⟩,
      ⟨"c", by decide, by decide⟩, "127.0.0.1:80"⟩,
    .udp ⟨pinned, ⟨"d", by decide, by decide⟩, ⟨"d", by decide, by decide⟩,
      ⟨"d", by decide, by decide⟩, "127.0.0.1:53"⟩]

/-- `lookup_host` on a machine that knows these names alone. -/
def knownHosts (hosts : List (String × SocketAddr)) (text : String) (addr : SocketAddr) : Bool :=
  (text, addr) ∈ hosts

def loopback (port : UInt16) : SocketAddr := .v4 .localhost port

/-- `lookup_host` and `BASE64_ENGINE.decode` on the texts of `twoEgresses`. -/
def lookTwo : Lookup where
  address := knownHosts [("127.0.0.1:8765", loopback 8765), ("127.0.0.1:80", loopback 80),
    ("127.0.0.1:53", loopback 53)]
  decode hash := if hash = "AQ==" then some [1] else none

/-- Egress `k`, whose target has this port, is brought up. -/
def bringUp (k : ℕ) (port : UInt16) : List (Label twoEgresses) :=
  .resolve (some (loopback port)) (some (loopback 8765)) ::
    [.startLock 0, .startCheck 0, .startSend 0, .startWrite 0, .startSpawn 0, .startStore 0].map
      (.egress k) ++ [.started, .assign]

/-- The first egress is up, and the second is going to be. -/
theorem launch_comes_up_two : ∃ s, (system lookTwo twoEgresses .checked).Run (bringUp 0 80) s ∧
    s.pc = .lookup 1 ∧
    (system lookTwo twoEgresses .checked).Ensures launches Resolves
      (fun t => t.pc.isUp = true) 18 s := by
  have hpc : (((system lookTwo twoEgresses .checked).exec (new twoEgresses) (bringUp 0 80)).map
      fun s => s.pc) = some (.lookup 1) := by decide +kernel
  obtain ⟨s, hs, hpc⟩ := Option.map_eq_some_iff.mp hpc
  have h : (system lookTwo twoEgresses .checked).Run (bringUp 0 80) s := System.run_of_exec hs
  have hwell : WellFormed lookTwo twoEgresses := by
    refine ⟨by decide, fun config hc => ?_⟩
    simp only [twoEgresses, List.mem_cons, List.not_mem_nil, or_false] at hc
    rcases hc with rfl | rfl
    · exact ⟨⟨loopback 80, by decide⟩, ⟨loopback 8765, by decide⟩, by decide⟩
    · exact ⟨⟨loopback 53, by decide⟩, ⟨loopback 8765, by decide⟩, by decide⟩
  exact ⟨s, h, hpc, (launch_comes_up h).2 hwell (by simp [hpc])⟩

end LaunchClient

end Siffleux
