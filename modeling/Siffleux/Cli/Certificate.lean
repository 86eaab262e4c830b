import Mathlib.Logic.Function.Basic
import Siffleux.Cli.SiffleuxConfig
import Siffleux.Foundation.Transition

/-!
# The server's certificate

`load_or_generate_self_signed_certificate` of `siffleux-cli/src/utils.rs`, over any number of starts
of the server program, each of which may be killed at any moment; a file that is being written then
holds a prefix of what was to be written.  The server tells the operator the hash of its
certificate, and a client accepts a server by that hash.

`rcgen`, `rustls`, the reader of PEM files, SHA-256 and base64 are not the program's own: `Pki` has
what is used of them, and `Pki.Lawful` what is relied on.

* `accepted_for_good_iff` — a hash that was logged once is the hash for good, exactly if the
  certificate and the key have a file each.
* `never_refuses_iff` — when a server can end up with the key of another certificate.
-/

namespace Siffleux

open ByteBuf Transition

/-- What `rcgen::generate_simple_self_signed` makes. -/
structure SelfSigned where
  certDer : Bytes
  key : Bytes
  certPem : Bytes
  keyPem : Bytes

/-- `keysMatch` is the check of `with_single_cert`; the number given to `generateSimpleSelfSigned`
stands for the randomness it takes. -/
structure Pki where
  sha256 : Bytes → Bytes
  encode : Bytes → String
  decode : String → Option Bytes
  certificateFromPem : Bytes → Option Bytes
  keyFromPem : Bytes → Option Bytes
  generateSimpleSelfSigned : String → ℕ → Option SelfSigned
  keysMatch : Bytes → Bytes → Bool

namespace Pki

/-- `common/utils.rs`. -/
def hashCertificate (pki : Pki) (certificate : Bytes) : Bytes := pki.sha256 certificate

/-- `CertificateHashVerifier::verify_server_cert`. -/
def verifyServerCert (pki : Pki) (certificateHash endEntity : Bytes) : Except String Unit :=
  if pki.sha256 endEntity = certificateHash then .ok () else .error "certificate hash mismatch"

/-- A client that was given the text `certHash` accepts a server with this certificate. -/
def Accepts (pki : Pki) (certHash : String) (endEntity : Bytes) : Prop :=
  ∃ hash, pki.decode certHash = some hash ∧ pki.verifyServerCert hash endEntity = .ok ()

/-- What is relied on: texts and files are read back as they were written, a key whose file was cut
short is not read as another one, and a certificate goes with the key it was made with. -/
structure Lawful (pki : Pki) (name : String) : Prop where
  decode_encode : ∀ b, pki.decode (pki.encode b) = some b
  certificate : ∀ n g, pki.generateSimpleSelfSigned name n = some g →
    pki.certificateFromPem g.certPem = some g.certDer
  key : ∀ n g, pki.generateSimpleSelfSigned name n = some g → pki.keyFromPem g.keyPem = some g.key
  keyCut : ∀ n g m, pki.generateSimpleSelfSigned name n = some g →
    pki.keyFromPem (g.keyPem.take m) = none ∨ pki.keyFromPem (g.keyPem.take m) = some g.key
  own : ∀ n g, pki.generateSimpleSelfSigned name n = some g → pki.keysMatch g.certDer g.key = true

lemma Lawful.accepts_iff {pki : Pki} {name : String} (h : pki.Lawful name) {certificate c : Bytes} :
    pki.Accepts (pki.encode (pki.hashCertificate certificate)) c ↔
      pki.sha256 c = pki.sha256 certificate := by
  simp only [Accepts, h.decode_encode, Option.some.injEq, exists_eq_left', verifyServerCert,
    hashCertificate]
  split_ifs with hc
  · exact iff_of_true rfl hc
  · exact iff_of_false (by simp) hc

end Pki

/-- Where a start of the program is.  The files that are being written have `n` of their bytes;
`refused` is a server that was given the key of another certificate. -/
inductive CertificatePc where
  | readCertificate
  | readKey (cert : Option Bytes)
  | generate
  | createCertificate (g : SelfSigned)
  | writingCertificate (g : SelfSigned) (n : ℕ)
  | writingKey (g : SelfSigned) (n : ℕ)
  | loaded (cert key : Bytes)
  | starting (cert key : Bytes)
  | serving (cert : Bytes)
  | refused
  | panicked

/-- The files on the disk, and the program at work on them.  A path is its text: two texts are two
files (on a disk, `a.pem` and `./a.pem` are one). -/
structure CertificateStore where
  files : String → Option Bytes
  pc : CertificatePc
  logged : List String

namespace CertificateStore

inductive Label where
  | readCertificate
  | readKey
  | generate (n : ℕ)
  | createCertificate
  | write (n : ℕ)
  | createKey
  | written
  | log
  | serve
  | restart

def new (files : String → Option Bytes) : CertificateStore := ⟨files, .readCertificate, []⟩

/-- `CertificateDer::from_pem_file`, and `PrivatePkcs8KeyDer::from_pem_file`. -/
def certificate (pki : Pki) (tls : TlsConfig) (s : CertificateStore) : Option Bytes :=
  (s.files tls.certPemPath).bind pki.certificateFromPem

def key (pki : Pki) (tls : TlsConfig) (s : CertificateStore) : Option Bytes :=
  (s.files tls.keyPemPath).bind pki.keyFromPem

def setFile (s : CertificateStore) (path : String) (bytes : Bytes) : CertificateStore :=
  { s with files := Function.update s.files path (some bytes) }

/-- One step of a start, or the next start.  A file that cannot be written ends the start with a
panic, which is a `restart` here. -/
def step (pki : Pki) (tls : TlsConfig) (s : CertificateStore) : Label → Option CertificateStore
  | .readCertificate =>
      match s.pc with
      | .readCertificate => some { s with pc := .readKey (s.certificate pki tls) }
      | _ => none
  | .readKey =>
      match s.pc with
      | .readKey cert =>
          match cert, s.key pki tls with
          | some cert, some key => some { s with pc := .loaded cert key }
          | _, _ => some { s with pc := .generate }
      | _ => none
  | .generate n =>
      match s.pc with
      | .generate =>
          match pki.generateSimpleSelfSigned tls.certSubjectAltName n with
          | some g => some { s with pc := .createCertificate g }
          | none => some { s with pc := .panicked }
      | _ => none
  | .createCertificate =>
      match s.pc with
      | .createCertificate g =>
          some { s.setFile tls.certPemPath [] with pc := .writingCertificate g 0 }
      | _ => none
  | .write n =>
      match s.pc with
      | .writingCertificate g m =>
          if m ≤ n then
            some { s.setFile tls.certPemPath (g.certPem.take n) with pc := .writingCertificate g n }
          else none
      | .writingKey g m =>
          if m ≤ n then
            some { s.setFile tls.keyPemPath (g.keyPem.take n) with pc := .writingKey g n }
          else none
      | _ => none
  | .createKey =>
      match s.pc with
      | .writingCertificate g n =>
          if g.certPem.length ≤ n then
            some { s.setFile tls.keyPemPath [] with pc := .writingKey g 0 }
          else none
      | _ => none
  | .written =>
      match s.pc with
      | .writingKey g n =>
          if g.keyPem.length ≤ n then some { s with pc := .loaded g.certDer g.key } else none
      | _ => none
  | .log =>
      match s.pc with
      | .loaded cert key => some { s with
          pc := .starting cert key
          logged := s.logged ++ [pki.encode (pki.hashCertificate cert)] }
      | _ => none
  | .serve =>
      match s.pc with
      | .starting cert key =>
          some { s with pc := if pki.keysMatch cert key then .serving cert else .refused }
      | _ => none
  | .restart => some { s with pc := .readCertificate }

def system (pki : Pki) (tls : TlsConfig) (files : String → Option Bytes) :
    System CertificateStore Label := ⟨new files, step pki tls⟩

/-! ## What a step can do -/

variable {pki : Pki} {tls : TlsConfig} {files : String → Option Bytes} {s s' : CertificateStore}
  {l : Label} {ls : List Label}

/-- Every step with its guard and its effect. -/
inductive Step (pki : Pki) (tls : TlsConfig) (s : CertificateStore) :
    Label → CertificateStore → Prop
  | certificateRead (hpc : s.pc = .readCertificate) :
      Step pki tls s .readCertificate { s with pc := .readKey (s.certificate pki tls) }
  | found {cert key : Bytes} (hpc : s.pc = .readKey (some cert)) (hk : s.key pki tls = some key) :
      Step pki tls s .readKey { s with pc := .loaded cert key }
  | missing {cert : Option Bytes} (hpc : s.pc = .readKey cert)
      (hk : cert = none ∨ s.key pki tls = none) : Step pki tls s .readKey { s with pc := .generate }
  | generated {n : ℕ} {g : SelfSigned} (hpc : s.pc = .generate)
      (hg : pki.generateSimpleSelfSigned tls.certSubjectAltName n = some g) :
      Step pki tls s (.generate n) { s with pc := .createCertificate g }
  | notGenerated {n : ℕ} (hpc : s.pc = .generate) :
      Step pki tls s (.generate n) { s with pc := .panicked }
  | certificateCreated {g : SelfSigned} (hpc : s.pc = .createCertificate g) :
      Step pki tls s .createCertificate
        { s.setFile tls.certPemPath [] with pc := .writingCertificate g 0 }
  | certificateWritten {g : SelfSigned} {m n : ℕ} (hpc : s.pc = .writingCertificate g m) :
      Step pki tls s (.write n)
        { s.setFile tls.certPemPath (g.certPem.take n) with pc := .writingCertificate g n }
  | keyCreated {g : SelfSigned} {n : ℕ} (hpc : s.pc = .writingCertificate g n)
      (hn : g.certPem.length ≤ n) :
      Step pki tls s .createKey { s.setFile tls.keyPemPath [] with pc := .writingKey g 0 }
  | keyWritten {g : SelfSigned} {m n : ℕ} (hpc : s.pc = .writingKey g m) :
      Step pki tls s (.write n)
        { s.setFile tls.keyPemPath (g.keyPem.take n) with pc := .writingKey g n }
  | written {g : SelfSigned} {n : ℕ} (hpc : s.pc = .writingKey g n) (hn : g.keyPem.length ≤ n) :
      Step pki tls s .written { s with pc := .loaded g.certDer g.key }
  | logged {cert key : Bytes} (hpc : s.pc = .loaded cert key) :
      Step pki tls s .log { s with
        pc := .starting cert key
        logged := s.logged ++ [pki.encode (pki.hashCertificate cert)] }
  | served {cert key : Bytes} (hpc : s.pc = .starting cert key)
      (hk : pki.keysMatch cert key = true) : Step pki tls s .serve { s with pc := .serving cert }
  | refused {cert key : Bytes} (hpc : s.pc = .starting cert key)
      (hk : pki.keysMatch cert key = false) : Step pki tls s .serve { s with pc := .refused }
  | restarted : Step pki tls s .restart { s with pc := .readCertificate }

theorem step_cases (hs : step pki tls s l = some s') : Step pki tls s l s' := by
  cases l with
  | readCertificate =>
      simp only [step] at hs
      split at hs
      · rename_i hpc
        rw [← Option.some.inj hs]
        exact .certificateRead hpc
      · cases hs
  | readKey =>
      simp only [step] at hs
      split at hs
      · rename_i cert hpc
        cases cert with
        | none =>
            rw [← Option.some.inj hs]
            exact .missing hpc (Or.inl rfl)
        | some cert =>
            cases hk : s.key pki tls with
            | none =>
                rw [hk] at hs
                rw [← Option.some.inj hs]
                exact .missing hpc (Or.inr hk)
            | some key =>
                rw [hk] at hs
                rw [← Option.some.inj hs]
                exact .found hpc hk
      · cases hs
  | generate n =>
      simp only [step] at hs
      split at hs
      · rename_i hpc
        split at hs
        · rename_i g hg
          rw [← Option.some.inj hs]
          exact .generated hpc hg
        · rw [← Option.some.inj hs]
          exact .notGenerated hpc
      · cases hs
  | createCertificate =>
      simp only [step] at hs
      split at hs
      · rename_i g hpc
        rw [← Option.some.inj hs]
        exact .certificateCreated hpc
      · cases hs
  | write n =>
      simp only [step] at hs
      split at hs
      · rename_i g m hpc
        simp only [Option.ite_none_right_eq_some, Option.some.injEq] at hs
        obtain ⟨-, rfl⟩ := hs
        exact .certificateWritten hpc
      · rename_i g m hpc
        simp only [Option.ite_none_right_eq_some, Option.some.injEq] at hs
        obtain ⟨-, rfl⟩ := hs
        exact .keyWritten hpc
      · cases hs
  | createKey =>
      simp only [step] at hs
      split at hs
      · rename_i g n hpc
        simp only [Option.ite_none_right_eq_some, Option.some.injEq] at hs
        obtain ⟨hn, rfl⟩ := hs
        exact .keyCreated hpc hn
      · cases hs
  | written =>
      simp only [step] at hs
      split at hs
      · rename_i g n hpc
        simp only [Option.ite_none_right_eq_some, Option.some.injEq] at hs
        obtain ⟨hn, rfl⟩ := hs
        exact .written hpc hn
      · cases hs
  | log =>
      simp only [step] at hs
      split at hs
      · rename_i cert key hpc
        rw [← Option.some.inj hs]
        exact .logged hpc
      · cases hs
  | serve =>
      simp only [step] at hs
      split at hs
      · rename_i cert key hpc
        rw [← Option.some.inj hs]
        cases hk : pki.keysMatch cert key with
        | true => exact .served hpc hk
        | false => exact .refused hpc hk
      · cases hs
  | restart =>
      simp only [step, Option.some.injEq] at hs
      subst hs
      exact .restarted

/-! ## What the files hold -/

/-- The certificate could have been made by this server. -/
def IsGenerated (pki : Pki) (tls : TlsConfig) (g : SelfSigned) : Prop :=
  ∃ n, pki.generateSimpleSelfSigned tls.certSubjectAltName n = some g

/-- What the files hold where the start is; nothing has been logged while they are written. -/
def Where (pki : Pki) (tls : TlsConfig) (s : CertificateStore) : CertificatePc → Prop
  | .readKey cert => cert = s.certificate pki tls
  | .generate => s.certificate pki tls = none ∨ s.key pki tls = none
  | .createCertificate g => IsGenerated pki tls g ∧
      (s.certificate pki tls = none ∨ s.key pki tls = none)
  | .writingCertificate g n => IsGenerated pki tls g ∧ s.logged = [] ∧
      s.files tls.certPemPath = some (g.certPem.take n)
  | .writingKey g n => IsGenerated pki tls g ∧ s.logged = [] ∧
      s.files tls.certPemPath = some g.certPem ∧ s.files tls.keyPemPath = some (g.keyPem.take n)
  | .loaded cert key | .starting cert key =>
      s.certificate pki tls = some cert ∧ s.key pki tls = some key
  | .serving cert => s.certificate pki tls = some cert
  | _ => True

structure Sound (pki : Pki) (tls : TlsConfig) (s : CertificateStore) : Prop where
  place : Where pki tls s s.pc
  logged : s.logged ≠ [] → ∃ cert key, s.certificate pki tls = some cert ∧
    s.key pki tls = some key ∧ ∀ t ∈ s.logged, t = pki.encode (pki.hashCertificate cert)

lemma sound_new : Sound pki tls (new files) := ⟨trivial, fun h => absurd rfl h⟩

/-- Nothing has been logged as long as a file cannot be read. -/
lemma Sound.logged_eq_nil (h : Sound pki tls s)
    (hn : s.certificate pki tls = none ∨ s.key pki tls = none) : s.logged = [] := by
  by_contra hne
  obtain ⟨cert, key, hc, hk, -⟩ := h.logged hne
  rcases hn with hn | hn
  · rw [hn] at hc
    cases hc
  · rw [hn] at hk
    cases hk

theorem Sound.step (h : Sound pki tls s) (hlaw : pki.Lawful tls.certSubjectAltName)
    (hpaths : tls.certPemPath ≠ tls.keyPemPath) (hs : CertificateStore.step pki tls s l = some s') :
    Sound pki tls s' := by
  have hplace := h.place
  have hnone : s.logged = [] → s.logged ≠ [] → ∃ cert key, s'.certificate pki tls = some cert ∧
      s'.key pki tls = some key ∧ ∀ t ∈ s.logged, t = pki.encode (pki.hashCertificate cert) :=
    fun hl hne => absurd hl hne
  cases step_cases hs with
  | certificateRead hpc => exact ⟨rfl, h.logged⟩
  | found hpc hk =>
      rw [hpc] at hplace
      exact ⟨⟨Eq.symm hplace, hk⟩, h.logged⟩
  | missing hpc hk =>
      rw [hpc] at hplace
      exact ⟨hk.imp_left fun hc => hplace.symm.trans hc, h.logged⟩
  | generated hpc hg =>
      rw [hpc] at hplace
      exact ⟨⟨⟨_, hg⟩, hplace⟩, h.logged⟩
  | notGenerated hpc => exact ⟨trivial, h.logged⟩
  | certificateCreated hpc =>
      rw [hpc] at hplace
      have hl := h.logged_eq_nil hplace.2
      exact ⟨⟨hplace.1, hl, Function.update_self ..⟩, hnone hl⟩
  | certificateWritten hpc =>
      rw [hpc] at hplace
      exact ⟨⟨hplace.1, hplace.2.1, Function.update_self ..⟩, hnone hplace.2.1⟩
  | keyCreated hpc hn =>
      rw [hpc] at hplace
      obtain ⟨hg, hl, hc⟩ := hplace
      refine ⟨⟨hg, hl, ?_, Function.update_self ..⟩, hnone hl⟩
      refine (Function.update_of_ne hpaths ..).trans ?_
      rw [hc, List.take_of_length_le hn]
  | keyWritten hpc =>
      rw [hpc] at hplace
      obtain ⟨hg, hl, hc, -⟩ := hplace
      exact ⟨⟨hg, hl, (Function.update_of_ne hpaths ..).trans hc, Function.update_self ..⟩,
        hnone hl⟩
  | @written g n hpc hn =>
      rw [hpc] at hplace
      obtain ⟨⟨m, hg⟩, hl, hc, hk⟩ := hplace
      refine ⟨⟨?_, ?_⟩, hnone hl⟩
      · show (s.files tls.certPemPath).bind pki.certificateFromPem = _
        rw [hc]
        exact hlaw.certificate m g hg
      · show (s.files tls.keyPemPath).bind pki.keyFromPem = _
        rw [hk, List.take_of_length_le hn]
        exact hlaw.key m g hg
  | @logged cert key hpc =>
      rw [hpc] at hplace
      refine ⟨hplace, fun _ => ⟨cert, key, hplace.1, hplace.2, fun t ht => ?_⟩⟩
      rw [List.mem_append, List.mem_singleton] at ht
      rcases ht with ht | rfl
      · obtain ⟨cert', key', hc, -, hall⟩ := h.logged (List.ne_nil_of_mem ht)
        obtain rfl := Option.some.inj (hc.symm.trans hplace.1)
        exact hall t ht
      · rfl
  | served hpc =>
      rw [hpc] at hplace
      exact ⟨hplace.1, h.logged⟩
  | refused => exact ⟨trivial, h.logged⟩
  | restarted => exact ⟨trivial, h.logged⟩

theorem sound_run (hlaw : pki.Lawful tls.certSubjectAltName)
    (hpaths : tls.certPemPath ≠ tls.keyPemPath) (h : (system pki tls files).Run ls s) :
    Sound pki tls s :=
  h.invariant (P := Sound pki tls) sound_new fun _ _ _ hi hs => hi.step hlaw hpaths hs

/-! ## Runs of a whole start -/

lemma exec_load {cert key : Bytes} (hpc : s.pc = .readCertificate)
    (hc : s.certificate pki tls = some cert) (hk : s.key pki tls = some key) :
    (system pki tls files).exec s [.readCertificate, .readKey, .log] = some { s with
      pc := .starting cert key
      logged := s.logged ++ [pki.encode (pki.hashCertificate cert)] } := by
  have hk' : ∀ pc, CertificateStore.key pki tls { s with pc := pc } = some key := fun _ => hk
  simp [System.exec, system, CertificateStore.step, hpc, hc, hk']

/-- A start that makes a certificate, up to the certificate's file. -/
lemma exec_generate {n : ℕ} {g : SelfSigned} (hpc : s.pc = .readCertificate)
    (hn : s.certificate pki tls = none ∨ s.key pki tls = none)
    (hg : pki.generateSimpleSelfSigned tls.certSubjectAltName n = some g) :
    (system pki tls files).exec s [.readCertificate, .readKey, .generate n, .createCertificate,
      .write g.certPem.length] = some { s.setFile tls.certPemPath g.certPem with
        pc := .writingCertificate g g.certPem.length } := by
  have hk' : ∀ pc, CertificateStore.key pki tls { s with pc := pc } = s.key pki tls := fun _ => rfl
  have hread : (system pki tls files).exec s [.readCertificate, .readKey] =
      some { s with pc := .generate } := by
    simp only [System.exec, system, CertificateStore.step, hpc, Option.bind_some, hk']
    rcases hn with hn | hn
    · rw [hn]
      rfl
    · rw [hn]
      cases s.certificate pki tls <;> rfl
  have hwrite : (system pki tls files).exec { s with pc := .generate } [.generate n,
      .createCertificate, .write g.certPem.length] = some { s.setFile tls.certPemPath g.certPem with
        pc := .writingCertificate g g.certPem.length } := by
    simp [System.exec, system, CertificateStore.step, hg, setFile]
  have happ := System.exec_append (M := system pki tls files) [.readCertificate, .readKey]
    [.generate n, .createCertificate, .write g.certPem.length] s
  rw [hread, Option.bind_some, hwrite] at happ
  exact happ

/-- The rest of such a start. -/
lemma exec_finish {g : SelfSigned} (hpc : s.pc = .writingCertificate g g.certPem.length) :
    (system pki tls files).exec s [.createKey, .write g.keyPem.length, .written, .log] =
      some { s.setFile tls.keyPemPath g.keyPem with
        pc := .starting g.certDer g.key
        logged := s.logged ++ [pki.encode (pki.hashCertificate g.certDer)] } := by
  simp [System.exec, system, CertificateStore.step, hpc, setFile]

/-! ## The hash that was logged -/

/-- With one file for both, every start makes a certificate of its own. -/
lemma not_accepted_of_one_file (hlaw : pki.Lawful tls.certSubjectAltName)
    (hkey : ∀ g, IsGenerated pki tls g → pki.certificateFromPem g.keyPem = none)
    {g g' : SelfSigned} (hg : IsGenerated pki tls g) (hg' : IsGenerated pki tls g')
    (hne : pki.sha256 g.certDer ≠ pki.sha256 g'.certDer)
    (hpath : tls.certPemPath = tls.keyPemPath) :
    ∃ ls s, (system pki tls fun _ => none).Run ls s ∧ s.pc = .serving g'.certDer ∧
      ∃ t ∈ s.logged, ¬ pki.Accepts t g'.certDer := by
  obtain ⟨n, hn⟩ := hg
  obtain ⟨n', hn'⟩ := hg'
  have hfirst := System.run_of_exec (exec_generate (s := new fun _ => none) rfl (Or.inl rfl) hn)
  have hsecond := (hfirst.exec_append _ (exec_finish rfl)).snoc (l := .restart) rfl
  have hthird := hsecond.exec_append _ (exec_generate rfl (Or.inl ?_) hn')
  · have hlast := (hthird.exec_append _ (exec_finish rfl)).snoc (l := .serve) rfl
    refine ⟨_, _, hlast, ?_, pki.encode (pki.hashCertificate g.certDer), by simp [new, setFile], ?_⟩
    · simp [hlaw.own n' g' hn']
    · rw [hlaw.accepts_iff]
      exact fun h => hne h.symm
  · -- the key has been written over the certificate
    simp [certificate, setFile, hpath, hkey g ⟨n, hn⟩]

/-- **A hash that was logged once is the hash for good**, whatever start is killed at whatever
moment, exactly if the certificate and the key have a file each: then every client that was ever
given a hash of the server accepts the server. -/
theorem accepted_for_good_iff (hlaw : pki.Lawful tls.certSubjectAltName)
    (hkey : ∀ g, IsGenerated pki tls g → pki.certificateFromPem g.keyPem = none)
    (hfresh : ∃ g g', IsGenerated pki tls g ∧ IsGenerated pki tls g' ∧
      pki.sha256 g.certDer ≠ pki.sha256 g'.certDer) :
    (∀ files ls s cert, (system pki tls files).Run ls s → s.pc = .serving cert →
      ∀ t ∈ s.logged, pki.Accepts t cert) ↔ tls.certPemPath ≠ tls.keyPemPath := by
  refine ⟨fun hall hpath => ?_, fun hpaths files ls s cert h hpc t ht => ?_⟩
  · obtain ⟨g, g', hg, hg', hne⟩ := hfresh
    obtain ⟨ls, s, h, hpc, t, ht, hnot⟩ := not_accepted_of_one_file hlaw hkey hg hg' hne hpath
    exact hnot (hall _ ls s _ h hpc t ht)
  · have hsound := sound_run hlaw hpaths h
    have hplace := hsound.place
    rw [hpc] at hplace
    obtain ⟨cert', key, hc, -, hlogged⟩ := hsound.logged (List.ne_nil_of_mem ht)
    obtain rfl := Option.some.inj (hc.symm.trans hplace)
    rw [hlogged t ht, hlaw.accepts_iff]

/-! ## The key of another certificate -/

/-- The key is not there, or it is the certificate's. -/
def Paired (pki : Pki) (tls : TlsConfig) (s : CertificateStore) : Prop :=
  s.key pki tls = none ∨ ∃ cert key, s.certificate pki tls = some cert ∧
    s.key pki tls = some key ∧ pki.keysMatch cert key = true

/-- The start is about to write, or is writing, the certificate's file. -/
def writesCertificate : CertificatePc → Bool
  | .generate | .createCertificate _ | .writingCertificate _ _ => true
  | _ => false

structure NeverRefuses (pki : Pki) (tls : TlsConfig) (s : CertificateStore) : Prop where
  sound : Sound pki tls s
  paired : Paired pki tls s
  unread : writesCertificate s.pc = true → s.key pki tls = none
  unrefused : s.pc ≠ .refused

/-- The files are as they were. -/
lemma NeverRefuses.move (h : NeverRefuses pki tls s) {pc : CertificatePc} {logged : List String}
    (hs : Sound pki tls ⟨s.files, pc, logged⟩)
    (hw : writesCertificate pc = true → s.key pki tls = none) (hpc : pc ≠ .refused) :
    NeverRefuses pki tls ⟨s.files, pc, logged⟩ := ⟨hs, h.paired, hw, hpc⟩

theorem NeverRefuses.step (h : NeverRefuses pki tls s)
    (hlaw : pki.Lawful tls.certSubjectAltName) (hpaths : tls.certPemPath ≠ tls.keyPemPath)
    (hs : CertificateStore.step pki tls s l = some s') : NeverRefuses pki tls s' := by
  have hsound := h.sound.step hlaw hpaths hs
  have hplace := h.sound.place
  -- the key's file is not the one that is written
  have hkey : ∀ {bytes pc}, CertificateStore.key pki tls
      { s.setFile tls.certPemPath bytes with pc := pc } = s.key pki tls := by
    intro bytes pc
    exact congrArg (Option.bind · pki.keyFromPem) (Function.update_of_ne hpaths.symm ..)
  cases step_cases hs with
  | certificateRead | found | notGenerated | written | logged | served | restarted =>
      exact h.move hsound (by simp [writesCertificate]) (by simp)
  | @missing cert hpc hk =>
      refine h.move hsound (fun _ => ?_) (by simp)
      rw [hpc] at hplace
      rcases hk with hc | hk
      · rcases h.paired with hnone | ⟨cert', key, hc', -⟩
        · exact hnone
        · rw [show cert = s.certificate pki tls from hplace, hc'] at hc
          cases hc
      · exact hk
  | generated hpc => exact h.move hsound (fun _ => h.unread (by rw [hpc]; rfl)) (by simp)
  | certificateCreated hpc | certificateWritten hpc =>
      have hnone := h.unread (by rw [hpc]; rfl)
      exact ⟨hsound, Or.inl (hkey.trans hnone), fun _ => hkey.trans hnone, by simp⟩
  | @keyCreated g n hpc hn =>
      refine ⟨hsound, ?_, by simp [writesCertificate], by simp⟩
      obtain ⟨⟨m, hg⟩, -, hc, hk⟩ := hsound.place
      rcases hlaw.keyCut m g 0 hg with hcut | hcut
      · exact Or.inl ((congrArg (Option.bind · pki.keyFromPem) hk).trans hcut)
      · refine Or.inr ⟨g.certDer, g.key, ?_, ?_, hlaw.own m g hg⟩
        · exact (congrArg (Option.bind · pki.certificateFromPem) hc).trans (hlaw.certificate m g hg)
        · exact (congrArg (Option.bind · pki.keyFromPem) hk).trans hcut
  | @keyWritten g m n hpc =>
      refine ⟨hsound, ?_, by simp [writesCertificate], by simp⟩
      obtain ⟨⟨j, hg⟩, -, hc, hk⟩ := hsound.place
      rcases hlaw.keyCut j g n hg with hcut | hcut
      · exact Or.inl ((congrArg (Option.bind · pki.keyFromPem) hk).trans hcut)
      · refine Or.inr ⟨g.certDer, g.key, ?_, ?_, hlaw.own j g hg⟩
        · exact (congrArg (Option.bind · pki.certificateFromPem) hc).trans (hlaw.certificate j g hg)
        · exact (congrArg (Option.bind · pki.keyFromPem) hk).trans hcut
  | @refused cert key hpc hk =>
      rw [hpc] at hplace
      rcases h.paired with hnone | ⟨cert', key', hc, hk', hmatch⟩
      · rw [hplace.2] at hnone
        cases hnone
      · obtain rfl := Option.some.inj (hc.symm.trans hplace.1)
        obtain rfl := Option.some.inj (hk'.symm.trans hplace.2)
        rw [hmatch] at hk
        cases hk

/-- **No start is refused over its key**, whatever start is killed at whatever moment, exactly if
at first there is no key, or the certificate's.  A key that was there without its certificate is
kept beside the new certificate by a start that is killed between the two files. -/
theorem never_refuses_iff (hlaw : pki.Lawful tls.certSubjectAltName)
    (hpaths : tls.certPemPath ≠ tls.keyPemPath)
    (hforeign : ∀ key, ∃ g, IsGenerated pki tls g ∧ pki.keysMatch g.certDer key = false) :
    (∀ ls s, (system pki tls files).Run ls s → s.pc ≠ .refused) ↔ Paired pki tls (new files) := by
  refine ⟨fun hall => ?_, fun hpaired ls s h => ?_⟩
  · by_contra hnot
    rw [Paired, not_or] at hnot
    obtain ⟨hsome, hmatch⟩ := hnot
    obtain ⟨key, hk⟩ := Option.ne_none_iff_exists'.mp hsome
    cases hc : (new files).certificate pki tls with
    | some cert =>
        have hload : (system pki tls files).exec (new files) _ = _ := exec_load rfl hc hk
        have hrun := (System.run_of_exec hload).snoc (l := .serve) rfl
        refine hall _ _ hrun ?_
        have hfalse : pki.keysMatch cert key = false := by
          rw [Bool.eq_false_iff]
          exact fun hm => hmatch ⟨cert, key, hc, hk, hm⟩
        simp [hfalse]
    | none =>
        obtain ⟨g, ⟨n, hg⟩, hfalse⟩ := hforeign key
        have hgenerate : (system pki tls files).exec (new files) _ = _ :=
          exec_generate rfl (Or.inl hc) hg
        have hkilled := (System.run_of_exec hgenerate).snoc (l := .restart) rfl
        have hc' : (Function.update files tls.certPemPath (some g.certPem) tls.certPemPath).bind
            pki.certificateFromPem = some g.certDer := by
          rw [Function.update_self]
          exact hlaw.certificate n g hg
        have hk' : (Function.update files tls.certPemPath (some g.certPem) tls.keyPemPath).bind
            pki.keyFromPem = some key := by
          rw [Function.update_of_ne hpaths.symm]
          exact hk
        have hrun := (hkilled.exec_append _ (exec_load rfl hc' hk')).snoc (l := .serve) rfl
        refine hall _ _ hrun ?_
        simp [hfalse]
  · have h0 : NeverRefuses pki tls (new files) :=
      ⟨sound_new, hpaired, by simp [new, writesCertificate], by simp [new]⟩
    exact (h.invariant (P := NeverRefuses pki tls) h0 fun _ _ _ hi hs =>
      hi.step hlaw hpaths hs).unrefused

/-! ## Two runs -/

/-- A byte stands for a certificate and for its key, and a letter before it says which one a file
is of. -/
def bytePki : Pki where
  sha256 := id
  encode b := String.ofList (b.map fun x => Char.ofNat x.toNat)
  decode t := some (t.toList.map fun c => UInt8.ofNat c.toNat)
  certificateFromPem
    | [67, x] => some [x]
    | _ => none
  keyFromPem
    | [75, x] => some [x]
    | _ => none
  generateSimpleSelfSigned _ n :=
    some ⟨[UInt8.ofNat n], [UInt8.ofNat n], [67, UInt8.ofNat n], [75, UInt8.ofNat n]⟩
  keysMatch c k := c == k

lemma bytePki_lawful (name : String) : bytePki.Lawful name where
  decode_encode b := by
    have hvalid : ∀ n < 256, (Char.ofNat n).toNat = n := by decide +kernel
    have hbyte : ∀ x : UInt8, UInt8.ofNat (Char.ofNat x.toNat).toNat = x := by
      intro x
      rw [hvalid x.toNat x.toNat_lt, UInt8.ofNat_toNat]
    simp [bytePki, Function.comp_def, hbyte]
  certificate := by
    rintro n g ⟨rfl⟩
    rfl
  key := by
    rintro n g ⟨rfl⟩
    rfl
  keyCut := by
    rintro n g m ⟨rfl⟩
    match m with
    | 0 => exact Or.inl rfl
    | 1 => exact Or.inl rfl
    | m + 2 =>
        refine Or.inr ?_
        rw [List.take_of_length_le (by simp)]
        rfl
  own := by
    rintro n g ⟨rfl⟩
    simp [bytePki]

/-- The default files are two. -/
theorem accepted_for_good_default : (∀ files ls s cert, (system bytePki defaultTls files).Run ls s →
    s.pc = .serving cert → ∀ t ∈ s.logged, bytePki.Accepts t cert) ↔
      defaultTls.certPemPath ≠ defaultTls.keyPemPath := by
  refine accepted_for_good_iff (bytePki_lawful _) ?_ ?_
  · rintro g ⟨n, ⟨rfl⟩⟩
    rfl
  · exact ⟨_, _, ⟨0, rfl⟩, ⟨1, rfl⟩, by decide⟩

/-- At first there is no file, or there is only a key. -/
theorem never_refuses_default :
    ((∀ ls s, (system bytePki defaultTls fun _ => none).Run ls s → s.pc ≠ .refused) ↔
      Paired bytePki defaultTls (new fun _ => none)) ∧
    ((∀ ls s, (system bytePki defaultTls fun path =>
      if path = defaultTls.keyPemPath then some [75, 9] else none).Run ls s → s.pc ≠ .refused) ↔
      Paired bytePki defaultTls (new fun path =>
        if path = defaultTls.keyPemPath then some [75, 9] else none)) := by
  have hpaths : defaultTls.certPemPath ≠ defaultTls.keyPemPath := by decide
  have hforeign : ∀ key, ∃ g, IsGenerated bytePki defaultTls g ∧
      bytePki.keysMatch g.certDer key = false := by
    intro key
    by_cases hk : key = [0]
    · exact ⟨_, ⟨1, rfl⟩, by subst hk; decide⟩
    · exact ⟨_, ⟨0, rfl⟩, beq_false_of_ne (Ne.symm hk)⟩
  exact ⟨never_refuses_iff (bytePki_lawful _) hpaths hforeign,
    never_refuses_iff (bytePki_lawful _) hpaths hforeign⟩

end CertificateStore

end Siffleux
