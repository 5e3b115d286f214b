import Openlia.Cli.HostState

/-! # A host keeps its identity

What identifies a host is its seed and its secrets. A run that asks the target
and takes what it finds keeps them; every other run that succeeds replaces them.
-/

namespace Openlia.Cli

open Crash Lib

/-! ## Secrets -/

theorem digitChar_hex : ∀ n < 16, (Nat.digitChar n).utf8Size = 1 ∧
    (('0' ≤ Nat.digitChar n && Nat.digitChar n ≤ '9') ||
      ('a' ≤ Nat.digitChar n && Nat.digitChar n ≤ 'f')) = true := by decide

theorem mem_hexDigits {b : UInt8} {c : Char} (h : c ∈ hexDigits b) :
    ∃ n < 16, c = Nat.digitChar n := by
  have hb := b.toNat_lt
  rcases List.mem_cons.mp h with rfl | h
  · exact ⟨b.toNat / 16, by omega, rfl⟩
  · obtain rfl := List.mem_singleton.mp h
    exact ⟨b.toNat % 16, by omega, rfl⟩

theorem utf8ByteSize_ofList_of_single {l : List Char} (h : ∀ c ∈ l, c.utf8Size = 1) :
    (String.ofList l).utf8ByteSize = l.length := by
  rw [String.utf8ByteSize, String.toByteArray_ofList]
  induction l with
  | nil => rfl
  | cons c l ih =>
      have hc := h c List.mem_cons_self
      rw [List.utf8Encode_cons, ByteArray.size_append,
        ih fun d hd => h d (List.mem_cons_of_mem c hd)]
      simp [List.utf8Encode, hc]
      omega

/-- What is generated is valid. -/
theorem validLochoHexSecret_hexString (bytes : Random) :
    validLochoHexSecret (hexString bytes) = true := by
  have hmem : ∀ c ∈ bytes.toList.flatMap hexDigits, ∃ n < 16, c = Nat.digitChar n := by
    intro c hc
    obtain ⟨b, -, hb⟩ := List.mem_flatMap.mp hc
    exact mem_hexDigits hb
  have hlen : (bytes.toList.flatMap hexDigits).length = 64 := by
    simp [List.length_flatMap, hexDigits]
  rw [validLochoHexSecret, Bool.and_eq_true, hexString, String.toList_ofList,
    utf8ByteSize_ofList_of_single, hlen]
  · refine ⟨rfl, List.all_eq_true.mpr fun c hc => ?_⟩
    obtain ⟨n, hn, rfl⟩ := hmem c hc
    exact (digitChar_hex n hn).2
  · intro c hc
    obtain ⟨n, hn, rfl⟩ := hmem c hc
    exact (digitChar_hex n hn).1

/-- A version that is read, and the endpoint of the key. -/
def LochoPersistedHostState.Supported (state : LochoPersistedHostState) (endpointID : String) :
    Prop :=
  (state.SchemaVersion = lochoHostStateSchemaVersion ∨ state.SchemaVersion = 1) ∧
    state.EndpointID = endpointID

instance (state : LochoPersistedHostState) (endpointID : String) :
    Decidable (state.Supported endpointID) :=
  inferInstanceAs (Decidable (_ ∧ _))

/-- The secrets, when none has to be repaired. -/
def LochoPersistedHostState.secrets (state : LochoPersistedHostState) : Option (String × Secrets) :=
  match state.ServiceSecrets with
  | none => none
  | some services =>
      if validLochoHexSecret state.AttachSecret = true ∧
          validLochoHexSecret (Secrets.get services "workspace-ui") = true then
        some (state.AttachSecret, services)
      else none

/-- One of the secrets was drawn. -/
def Draws.Drawn (draws : Draws) (attach : String) (services : Secrets) : Prop :=
  generateLochoSecretHex draws.attach = .ok attach ∨
    generateLochoSecretHex draws.service = .ok (Secrets.get services "workspace-ui")

theorem valid_of_generated {draw : Except String Random} {secret : String}
    (h : generateLochoSecretHex draw = .ok secret) : validLochoHexSecret secret = true := by
  cases draw with
  | error e => cases h
  | ok bytes =>
      cases h
      exact validLochoHexSecret_hexString bytes

theorem repaired {draw : Except String Random} {secret secret' : String}
    (h : repairSecret draw secret = .ok secret') :
    validLochoHexSecret secret' = true ∧
      (validLochoHexSecret secret = true ∧ secret' = secret ∨
        validLochoHexSecret secret = false ∧ generateLochoSecretHex draw = .ok secret') := by
  unfold repairSecret at h
  split at h
  · cases h
    rename_i hv
    exact ⟨hv, .inl ⟨hv, rfl⟩⟩
  · rename_i hv
    exact ⟨valid_of_generated h, .inr ⟨Bool.not_eq_true _ ▸ hv, h⟩⟩

theorem get_insert (services : Secrets) (service secret : String) :
    Secrets.get (services.insert service secret) service = secret := by
  simp [Secrets.get, Finmap.lookup_insert]

theorem generated_state {draws : Draws} {endpointID : String} {state : LochoPersistedHostState}
    (h : generateLochoHostState draws endpointID = .ok state) :
    state.Supported endpointID ∧
      ∃ attach services, state.secrets = some (attach, services) ∧ draws.Drawn attach services := by
  unfold generateLochoHostState at h
  cases ha : generateLochoSecretHex draws.attach with
  | error e => rw [ha] at h; cases h
  | ok attach =>
      cases hs : generateLochoSecretHex draws.service with
      | error e => rw [ha, hs] at h; cases h
      | ok secret =>
          rw [ha, hs] at h
          cases h
          refine ⟨⟨.inl rfl, rfl⟩, attach, Finmap.insert "workspace-ui" secret ∅, ?_, .inl ha⟩
          simp [LochoPersistedHostState.secrets, get_insert, valid_of_generated ha,
            valid_of_generated hs]

/-! ## Identities -/

structure HostIdentity where
  seed : List UInt8
  attach : String
  services : Secrets
  deriving DecidableEq

section Identity

variable {R : Type} (codec : HostCodec R)

/-- The state in a file, if it is one of the key. -/
def HostCodec.supported (seed : List UInt8) (raw : R) : Option LochoPersistedHostState :=
  if seed.length = 32 then
    (codec.unmarshal raw).filter fun state =>
      decide (state.Supported (codec.deriveLochoEndpointID seed))
  else none

/-- A valid key and a valid state. -/
def HostCodec.identity (seed : List UInt8) (raw : R) : Option HostIdentity :=
  ((codec.supported seed raw).bind (·.secrets)).map fun s => ⟨seed, s.1, s.2⟩

def TargetFiles.identity (t : TargetFiles R) : Option HostIdentity :=
  (t.key.bind Entry.regular).bind fun seed =>
    (t.state.bind Entry.regular).bind fun raw => codec.identity seed raw

/-- The files of the state directory, which have mode 0600. -/
def filesIdentity (key : Option (Entry (List UInt8))) (state : Option (Entry R)) :
    Option HostIdentity :=
  (key.bind Entry.guarded).bind fun seed =>
    (state.bind Entry.guarded).bind fun raw => codec.identity seed raw

def StateDir.identity (d : StateDir R) : Option HostIdentity :=
  if d.directory then filesIdentity codec d.key d.state else none

variable {codec} {seed : List UInt8} {raw : R} {state : LochoPersistedHostState}

theorem supported_eq_some :
    codec.supported seed raw = some state ↔ seed.length = 32 ∧ codec.unmarshal raw = some state ∧
      state.Supported (codec.deriveLochoEndpointID seed) := by
  unfold HostCodec.supported
  split <;> simp_all [Option.filter_eq_some_iff]

theorem identity_eq_some {i : HostIdentity} :
    codec.identity seed raw = some i ↔ i.seed = seed ∧
      ∃ state, codec.supported seed raw = some state ∧
        state.secrets = some (i.attach, i.services) := by
  obtain ⟨s, attach, services⟩ := i
  simp only [HostCodec.identity, Option.map_eq_some_iff, Option.bind_eq_some_iff,
    HostIdentity.mk.injEq]
  constructor
  · rintro ⟨⟨a, v⟩, ⟨state, hs, hsec⟩, rfl, rfl, rfl⟩
    exact ⟨rfl, state, hs, hsec⟩
  · rintro ⟨rfl, state, hs, hsec⟩
    exact ⟨(attach, services), ⟨state, hs, hsec⟩, rfl, rfl, rfl⟩

/-- A written state is read as it was. -/
theorem identity_marshal {attach : String} {services : Secrets} (hlen : seed.length = 32)
    (hs : state.Supported (codec.deriveLochoEndpointID seed))
    (hsec : state.secrets = some (attach, services)) :
    codec.identity seed (codec.marshal state) = some ⟨seed, attach, services⟩ := by
  refine identity_eq_some.mpr ⟨rfl, state, ?_, hsec⟩
  exact supported_eq_some.mpr ⟨hlen, codec.unmarshal_marshal state, hs⟩

/-- A repaired state has the secrets of the file or drawn ones, and an unchanged file
needed no repair. -/
theorem parsed_state {draws : Draws} {endpointID : String} {changed : Bool}
    (h : parseAndRepairLochoHostState codec draws raw endpointID = .ok (state, changed)) :
    state.Supported endpointID ∧
    ∃ old, codec.unmarshal raw = some old ∧ old.Supported endpointID ∧
      ∃ attach services, state.secrets = some (attach, services) ∧
        (old.secrets = some (attach, services) ∨
          changed = true ∧ old.secrets = none ∧ draws.Drawn attach services) := by
  unfold parseAndRepairLochoHostState at h
  split at h
  · cases h
  rename_i old hold
  split at h
  · cases h
  rename_i hversion
  split at h
  · cases h
  rename_i hendpoint
  have hsupported : old.Supported endpointID :=
    ⟨by rw [not_and_or, not_not, not_not] at hversion; exact hversion, not_not.mp hendpoint⟩
  obtain ⟨attach, hattach, h⟩ := except_bind_eq_ok h
  obtain ⟨service, hservice, h⟩ := except_bind_eq_ok h
  cases h
  obtain ⟨hvalid, hattach⟩ := repaired hattach
  obtain ⟨hvalid', hservice⟩ := repaired hservice
  have hsecrets : ∀ services : Secrets,
      validLochoHexSecret (Secrets.get services "workspace-ui") = true →
      LochoPersistedHostState.secrets
        ⟨lochoHostStateSchemaVersion, old.EndpointID, attach, some services⟩ =
          some (attach, services) := by
    intro services hs
    simp [LochoPersistedHostState.secrets, hvalid, hs]
  refine ⟨⟨.inl rfl, hsupported.2⟩, old, hold, hsupported, attach, _, hsecrets _ ?_, ?_⟩
  · split
    · assumption
    · rwa [get_insert]
  · rcases hservice with ⟨hs, rfl⟩ | ⟨hs, hdrawn⟩
    · rw [if_pos hs]
      cases ho : old.ServiceSecrets with
      | none => rw [ho] at hs; exact absurd hs (by decide)
      | some services =>
          rw [ho, Option.getD_some] at hs
          rcases hattach with ⟨ha, rfl⟩ | ⟨ha, hdrawn⟩
          · exact .inl (by simp [LochoPersistedHostState.secrets, ho, ha, hs])
          · exact .inr ⟨by simp [ha], by simp [LochoPersistedHostState.secrets, ho, ha], .inl hdrawn⟩
    · rw [if_neg (by simp [hs])]
      refine .inr ⟨by simp [hs], ?_, .inr (by rw [get_insert]; exact hdrawn)⟩
      unfold LochoPersistedHostState.secrets
      cases ho : old.ServiceSecrets with
      | none => rfl
      | some services =>
          rw [ho, Option.getD_some] at hs
          simp [hs]

/-- Secrets that need no repair are read. -/
theorem exists_parsed {draws : Draws} {endpointID : String} {s : String × Secrets}
    (hun : codec.unmarshal raw = some state) (hsup : state.Supported endpointID)
    (hsec : state.secrets = some s) :
    ∃ parsed, parseAndRepairLochoHostState codec draws raw endpointID = .ok parsed := by
  unfold LochoPersistedHostState.secrets at hsec
  split at hsec
  · cases hsec
  · rename_i services hservices
    split at hsec
    · rename_i hvalid
      have hversion : ¬ (state.SchemaVersion ≠ lochoHostStateSchemaVersion ∧
          state.SchemaVersion ≠ 1) := by
        rw [not_and_or, not_not, not_not]
        exact hsup.1
      rw [parseAndRepairLochoHostState, hun]
      simp only [if_neg hversion, if_neg (not_not.mpr hsup.2), hservices, Option.getD_some,
        repairSecret, if_pos hvalid.1, if_pos hvalid.2]
      exact ⟨_, rfl⟩
    · cases hsec

end Identity

/-! ## Careful runs -/

section Careful

variable {R : Type} (codec : HostCodec R) (w : HostWorld R) (calls : HostCalls R)
  (deployment : Option Deployment)

/-- Found by `os.Stat`. -/
def present {α : Type} : Option (Entry α) → Bool
  | none | some .dangling => false
  | some (.file ..) | some .other => true

/-- The target is reached and read, and its files are written. -/
def HostCalls.Adopts : Prop :=
  deployment.isSome = true ∧ calls.unreachable = false ∧ calls.readTarget = none ∧
    calls.adoptKey = ⟨none, none⟩ ∧ calls.adoptState = ⟨none, none⟩

/-- Without local files those of the target are adopted, and local files need no new secrets. -/
def HostWorld.Keeps : Prop :=
  match present w.dir.key, present w.dir.state with
  | false, false => calls.Adopts deployment
  | true, false => ∀ seed ∈ w.dir.key.bind Entry.guarded, seed.length ≠ 32
  | true, true => ∀ seed ∈ w.dir.key.bind Entry.guarded, ∀ raw ∈ w.dir.state.bind Entry.guarded,
      ∀ state ∈ codec.supported seed raw, state.secrets.isSome = true
  | false, true => True

/-- A seed or a secret that the run drew. -/
def HostCalls.Drew (i : HostIdentity) : Prop :=
  (∃ seed, calls.seed = .ok seed ∧ i.seed = seed.toList) ∨
    calls.repair.Drawn i.attach i.services ∨ calls.fresh.Drawn i.attach i.services

/-- Where a run has an identity from, when `old` is the target's. -/
def Origin (old i : HostIdentity) : Prop :=
  w.target.identity codec = some old →
    w.dir.identity codec = some i ∨ i = old ∧ w.Keeps codec calls deployment ∨
      ¬ w.Keeps codec calls deployment ∧ calls.Drew i

/-- The target is as in `w`, the local files are the given ones. -/
structure At (key : Option (Entry (List UInt8))) (state : Option (Entry R)) (x : HostWorld R) :
    Prop where
  target : x.target = w.target
  directory : x.dir.directory = w.dir.directory
  key : x.dir.key = key
  state : x.dir.state = state

end Careful

section Specs

variable {R : Type} {codec : HostCodec R} {w : HostWorld R} {calls : HostCalls R}
  {key key' : Option (Entry (List UInt8))} {state state' : Option (Entry R)}

theorem At.refl (w : HostWorld R) : At w w.dir.key w.dir.state w := ⟨rfl, rfl, rfl, rfl⟩

theorem At.secured {x : HostWorld R} (h : At w key state x) :
    At w key state (x.mapDir StateDir.secured) :=
  ⟨h.target, h.directory, h.key, h.state⟩

theorem write_spec {put : StateDir R → StateDir R} {write : WriteCalls}
    (hput : ∀ x, At w key state x → At w key' state' (x.mapDir put)) :
    Spec (At w key state) (writePrivateFileAtomic write put)
      (fun x => At w key state x ∨ write = ⟨none, none⟩ ∧ At w key' state' x)
      fun r x => r = .ok () ∧ write = ⟨none, none⟩ ∧ At w key' state' x ∨
        r ≠ .ok () ∧ write ≠ ⟨none, none⟩ ∧ At w key state x := by
  intro x hx
  obtain ⟨parent, replace⟩ := write
  cases parent with
  | some e => exact ⟨by simp [writePrivateFileAtomic, refuse], .inr ⟨nofun, by simp, hx⟩⟩
  | none =>
      cases replace with
      | some e =>
          refine ⟨fun t ht => .inl ?_, .inr ⟨nofun, by simp, hx.secured⟩⟩
          obtain rfl : t = x.mapDir StateDir.secured := by
            simpa [writePrivateFileAtomic, refuse] using ht
          exact hx.secured
      | none =>
          refine ⟨fun t ht => ?_, .inl ⟨rfl, rfl, hput _ hx.secured⟩⟩
          obtain rfl | rfl : t = x.mapDir StateDir.secured ∨
              t = (x.mapDir StateDir.secured).mapDir put := by
            simpa [writePrivateFileAtomic, refuse] using ht
          · exact .inl hx.secured
          · exact .inr ⟨rfl, hput _ hx.secured⟩

theorem refuse_spec {P C : HostWorld R → Prop} {label : String} {fault : Option String} :
    Spec P (refuse (R := R) label fault) C fun r x => P x ∧ (r = .ok () ↔ fault = none) :=
  Spec.refuse.conseq (fun _ h => h) (fun _ h => h) fun _ _ h => by simpa using h

theorem labelled_spec {α : Type} {P C : HostWorld R → Prop} {label : String}
    {p : HostAction R α} {Q : Except String α → HostWorld R → Prop}
    (hp : Spec P p C Q) :
    Spec P (labelled label p) C fun r x =>
      (∃ a, r = .ok a ∧ Q (.ok a) x) ∨ (∀ a, r ≠ .ok a) ∧ ∃ e, Q (.error e) x := by
  refine Spec.attempt_bind hp ?_
  rintro (e | a)
  · exact Spec.fail fun x h => .inr ⟨nofun, e, h⟩
  · exact Spec.pure fun x h => .inl ⟨a, rfl, h⟩

/-- The seed that the key file holds. -/
theorem key_spec {C : HostWorld R → Prop} :
    Spec (At w key state) (validateLochoHostKeyFile codec calls) C fun r x => At w key state x ∧
      ∀ endpointID, r = .ok endpointID → ∃ seed, key.bind Entry.guarded = some seed ∧
        seed.length = 32 ∧ endpointID = codec.deriveLochoEndpointID seed := by
  refine Spec.get_bind fun x hx => ?_
  rw [hx.key]
  split
  · rename_i seed _ hkey
    refine Spec.bind refuse_spec (fun _ => ?_) fun e y h => ⟨h.1 ▸ hx, nofun⟩
    refine Spec.ite (fun _ => Spec.fail ?_) fun hlen => Spec.pure ?_
    · exact fun y h => ⟨h.1 ▸ hx, nofun⟩
    · refine fun y h => ⟨h.1 ▸ hx, fun endpointID he => ?_⟩
      exact ⟨seed, hkey, not_not.mp hlen, (Except.ok.inj he).symm⟩
  · exact Spec.fail fun y h => ⟨h ▸ hx, nofun⟩

end Specs

section Ensure

variable {R : Type} {codec : HostCodec R} {w : HostWorld R} {calls : HostCalls R}
  {deployment : Option Deployment} {old : HostIdentity} {x : HostWorld R}
  {key : Option (Entry (List UInt8))} {state : Option (Entry R)}

/-- The target is untouched, and a local identity has an origin. -/
structure Left (codec : HostCodec R) (w : HostWorld R) (calls : HostCalls R)
    (deployment : Option Deployment) (old : HostIdentity) (x : HostWorld R) : Prop where
  target : x.target = w.target
  origin : ∀ i, x.dir.identity codec = some i → Origin codec w calls deployment old i

/-- The files that an upload takes. -/
def Ready (codec : HostCodec R) (w : HostWorld R) (calls : HostCalls R)
    (deployment : Option Deployment) (old : HostIdentity) (x : HostWorld R) : Prop :=
  ∃ seed raw i, x.dir.key = some (.file true seed) ∧ x.dir.state = some (.file true raw) ∧
    codec.identity seed raw = some i ∧ Origin codec w calls deployment old i

theorem guarded_eq_some {α : Type} {entry : Option (Entry α)} {contents : α} :
    entry.bind Entry.guarded = some contents ↔ entry = some (.file true contents) := by
  rcases entry with _ | ⟨_ | _, _⟩ | _ | _ <;> simp [Entry.guarded]

theorem filesIdentity_file (seed : List UInt8) (raw : R) :
    filesIdentity codec (some (.file true seed)) (some (.file true raw)) =
      codec.identity seed raw := rfl

theorem At.left (h : At w w.dir.key w.dir.state x) : Left codec w calls deployment old x := by
  refine ⟨h.target, fun i hi _ => .inl ?_⟩
  rwa [StateDir.identity, h.directory, h.key, h.state] at hi

theorem At.left_of (h : At w key state x)
    (hi : ∀ i, filesIdentity codec key state = some i → Origin codec w calls deployment old i) :
    Left codec w calls deployment old x := by
  refine ⟨h.target, fun i hx => hi i ?_⟩
  rw [StateDir.identity, h.key, h.state] at hx
  split at hx
  · exact hx
  · cases hx

/-- A file for each half is ready once it has an origin. -/
theorem At.ready {seed : List UInt8} {raw : R} {i : HostIdentity}
    (h : At w (some (.file true seed)) (some (.file true raw)) x)
    (hi : codec.identity seed raw = some i) (ho : Origin codec w calls deployment old i) :
    Left codec w calls deployment old x ∧ Ready codec w calls deployment old x := by
  refine ⟨h.left_of fun j hj => ?_, seed, raw, i, h.key, h.state, hi, ho⟩
  rw [filesIdentity_file, hi] at hj
  exact Option.some.inj hj ▸ ho

theorem secure_spec {C : HostWorld R → Prop} (hC : ∀ x, At w key state x → C x) :
    Spec (At w key state) (secureStateDir calls) C fun r x => At w key state x ∧
      (r = .ok () → w.dir.directory = true) := by
  refine Spec.get_bind fun x hx => ?_
  refine Spec.ite (fun _ => Spec.fail fun y h => ⟨h ▸ hx, nofun⟩) fun hdir => ?_
  have hdirectory : w.dir.directory = true := by
    rw [← hx.directory]
    simp at hdir
    exact hdir.2
  refine Spec.ite (fun _ => ?_) fun _ => Spec.pure fun y h => ⟨h ▸ hx, fun _ => hdirectory⟩
  refine Spec.bind refuse_spec (fun _ => Spec.write ?_ ?_) fun e y h => ⟨h.1 ▸ hx, nofun⟩
  · exact fun y h => hC _ (h.1 ▸ hx.secured)
  · exact fun y h => ⟨h.1 ▸ hx.secured, fun _ => hdirectory⟩

theorem validate_spec (hkey : present w.dir.key = true) (hstate : present w.dir.state = true) :
    Spec (At w w.dir.key w.dir.state) (validateLochoHostStateDir codec calls)
      (Left codec w calls deployment old) fun r x => Left codec w calls deployment old x ∧
        (r = .ok () → Ready codec w calls deployment old x) := by
  refine Spec.bind (secure_spec fun x hx => hx.left) (fun _ => ?_) fun e x h => ⟨h.1.left, nofun⟩
  refine Spec.of_pre fun x₀ ⟨hx₀, hdir⟩ => ?_
  replace hdir := hdir rfl
  refine Spec.bind (key_spec.conseq (fun _ h => h ▸ hx₀) (fun _ h => h) fun _ _ h => h)
    (fun endpointID => ?_) fun e x h => ⟨h.1.left, nofun⟩
  refine Spec.get_bind fun x ⟨hx, hend⟩ => ?_
  obtain ⟨seed, hseed, hlen, rfl⟩ := hend endpointID rfl
  rw [hx.state]
  split
  swap
  · exact Spec.fail fun y h => ⟨h ▸ hx.left, nofun⟩
  rename_i raw _ hraw
  refine Spec.bind refuse_spec (fun _ => ?_) fun e y h => ⟨h.1 ▸ hx.left, nofun⟩
  refine Spec.bind Spec.lift (fun parsed => ?_) fun e y h => ⟨h.1.1 ▸ hx.left, nofun⟩
  obtain ⟨state', changed⟩ := parsed
  refine Spec.of_pre fun y hy => ?_
  obtain ⟨⟨rfl, -⟩, hparse⟩ := hy
  obtain ⟨hsup, st, hst, hstsup, attach, services, hsec, hcases⟩ := parsed_state hparse.symm
  have hstate' : codec.supported seed raw = some st := supported_eq_some.mpr ⟨hlen, hst, hstsup⟩
  have hsame : st.secrets = some (attach, services) →
      codec.identity seed raw = some ⟨seed, attach, services⟩ := fun h =>
    identity_eq_some.mpr ⟨rfl, st, hstate', h⟩
  have horigin : Origin codec w calls deployment old ⟨seed, attach, services⟩ := by
    intro _
    rcases hcases with h | ⟨-, hnone, hdrawn⟩
    · refine .inl ?_
      rw [StateDir.identity, if_pos hdir, filesIdentity, hseed, hraw]
      exact hsame h
    · refine .inr (.inr ⟨fun hkeeps => ?_, .inr (.inl hdrawn)⟩)
      rw [HostWorld.Keeps, hkey, hstate] at hkeeps
      have hsome := hkeeps seed hseed raw hraw st hstate'
      rw [hnone] at hsome
      cases hsome
  have hmarshal := identity_marshal hlen hsup hsec
  have hkey' := guarded_eq_some.mp hseed
  refine Spec.ite (fun _ => ?_) fun hchanged => ?_
  · have hput : ∀ z, At w w.dir.key w.dir.state z →
        At w (some (.file true seed)) (some (.file true (codec.marshal state')))
          (z.mapDir (·.setState (codec.marshal state'))) :=
      fun z h => ⟨h.target, h.directory, h.key.trans hkey', rfl⟩
    refine (write_spec hput).conseq (fun z (h : z = _) => h ▸ hx) (fun z h => ?_) fun r z h => ?_
    · rcases h with h | ⟨-, h⟩
      · exact h.left
      · exact (h.ready hmarshal horigin).1
    · rcases h with ⟨-, -, h⟩ | ⟨hr, -, h⟩
      · exact ⟨(h.ready hmarshal horigin).1, fun _ => (h.ready hmarshal horigin).2⟩
      · exact ⟨h.left, fun he => absurd he hr⟩
  · have hunchanged : st.secrets = some (attach, services) :=
      hcases.resolve_right fun h => hchanged h.1
    refine Spec.pure fun z h => ⟨h ▸ hx.left, fun _ => ?_⟩
    refine ⟨seed, raw, _, ?_, ?_, hsame hunchanged, horigin⟩
    · exact h ▸ hx.key.trans hkey'
    · exact h ▸ hx.state.trans (guarded_eq_some.mp hraw)

/-- A new state for a seed. -/
theorem writeState_spec {seed : List UInt8} {st : LochoPersistedHostState} {write : WriteCalls}
    {attach : String} {services : Secrets} (hlen : seed.length = 32)
    (hnone : state.bind Entry.guarded = none)
    (hsup : st.Supported (codec.deriveLochoEndpointID seed))
    (hsec : st.secrets = some (attach, services))
    (ho : write = ⟨none, none⟩ → Origin codec w calls deployment old ⟨seed, attach, services⟩) :
    Spec (At w (some (.file true seed)) state) (writeLochoHostStateFile codec write st)
      (Left codec w calls deployment old) fun r x =>
        r = .ok () ∧ Left codec w calls deployment old x ∧ Ready codec w calls deployment old x ∨
          r ≠ .ok () ∧ write ≠ ⟨none, none⟩ ∧ At w (some (.file true seed)) state x := by
  have hput : ∀ z, At w (some (.file true seed)) state z →
      At w (some (.file true seed)) (some (.file true (codec.marshal st)))
        (z.mapDir (·.setState (codec.marshal st))) :=
    fun z h => ⟨h.target, h.directory, h.key, rfl⟩
  have hmarshal := identity_marshal hlen hsup hsec
  refine (write_spec hput).conseq (fun _ h => h) (fun z h => ?_) fun r z h => ?_
  · rcases h with h | ⟨hw, h⟩
    · exact h.left_of fun i hi => by simp [filesIdentity, hnone] at hi
    · exact (h.ready hmarshal (ho hw)).1
  · rcases h with ⟨hr, hw, h⟩ | ⟨hr, hw, h⟩
    · exact .inl ⟨hr, h.ready hmarshal (ho hw)⟩
    · exact .inr ⟨hr, hw, h⟩

theorem guarded_none_of_absent {α : Type} {entry : Option (Entry α)}
    (h : present entry = false) : entry.bind Entry.guarded = none := by
  rcases entry with _ | ⟨_, _⟩ | _ | _ <;> simp_all [present, Entry.guarded]

theorem complete_spec (hkey : present w.dir.key = true) (hstate : present w.dir.state = false) :
    Spec (At w w.dir.key w.dir.state) (completeLochoHostState codec calls)
      (Left codec w calls deployment old) fun r x => Left codec w calls deployment old x ∧
        (r = .ok () → Ready codec w calls deployment old x) := by
  refine Spec.bind key_spec (fun endpointID => ?_) fun e x h => ⟨h.1.left, nofun⟩
  refine Spec.bind Spec.lift (fun st => ?_) fun e x h => ⟨h.1.1.left, nofun⟩
  refine Spec.of_pre fun x ⟨⟨hx, hend⟩, hst⟩ => ?_
  obtain ⟨seed, hseed, hlen, rfl⟩ := hend endpointID rfl
  obtain ⟨hsup, attach, services, hsec, hdrawn⟩ := generated_state hst.symm
  have hkey' := guarded_eq_some.mp hseed
  have horigin : Origin codec w calls deployment old ⟨seed, attach, services⟩ := by
    refine fun _ => .inr (.inr ⟨fun hkeeps => ?_, .inr (.inr hdrawn)⟩)
    rw [HostWorld.Keeps, hkey, hstate] at hkeeps
    exact hkeeps seed hseed hlen
  refine (writeState_spec hlen (guarded_none_of_absent hstate) hsup hsec fun _ => horigin).conseq
    (fun z h => h ▸ hkey' ▸ hx) (fun _ h => h) fun r z h => ?_
  rcases h with ⟨-, hleft, hready⟩ | ⟨hr, -, h⟩
  · exact ⟨hleft, fun _ => hready⟩
  · exact ⟨(hkey' ▸ h : At w w.dir.key w.dir.state z).left, fun he => absurd he hr⟩

/-- Without a state file there is no identity, whatever the key. -/
theorem At.left_of_none (h : At w key w.dir.state x) (hstate : present w.dir.state = false) :
    Left codec w calls deployment old x :=
  h.left_of fun i hi => by simp [filesIdentity, guarded_none_of_absent hstate] at hi

theorem removeKey_spec {failed : Bool} {C : HostWorld R → Prop}
    (hC : ∀ k x, At w k state x → C x) :
    Spec (At w key state) (removeKey failed) C fun _ x => ∃ k, At w k state x := by
  refine Spec.ite (fun _ => Spec.pure fun x h => ⟨key, h⟩) fun _ => Spec.write ?_ ?_
  · exact fun x h => hC none _ ⟨h.target, h.directory, rfl, h.state⟩
  · exact fun x h => ⟨none, h.target, h.directory, rfl, h.state⟩

/-- The state after the key: when it fails the key goes too, if it can. -/
theorem stateOrRemove_spec {α : Type} {seed : List UInt8} {st : LochoPersistedHostState}
    {write : WriteCalls} {attach : String} {services : Secrets} {failed : Bool} {a : α}
    {f : String → String} (hlen : seed.length = 32) (hstate : present w.dir.state = false)
    (hsup : st.Supported (codec.deriveLochoEndpointID seed))
    (hsec : st.secrets = some (attach, services))
    (ho : write = ⟨none, none⟩ → Origin codec w calls deployment old ⟨seed, attach, services⟩) :
    Spec (At w (some (.file true seed)) w.dir.state)
      (do
        match ← Prog.attempt (writeLochoHostStateFile codec write st) with
        | .ok () => pure a
        | .error e => do
            removeKey failed
            Prog.fail (f e))
      (Left codec w calls deployment old) fun r x =>
        r = .ok a ∧ Left codec w calls deployment old x ∧ Ready codec w calls deployment old x ∨
          (∀ b, r ≠ .ok b) ∧ write ≠ ⟨none, none⟩ ∧ ∃ k, At w k w.dir.state x := by
  refine Spec.attempt_bind
    (writeState_spec hlen (guarded_none_of_absent hstate) hsup hsec ho) ?_
  rintro (e | u)
  · refine Spec.of_pre fun x hx => ?_
    obtain ⟨he, -⟩ | ⟨-, hw, hx⟩ := hx
    · cases he
    refine Spec.bind ((removeKey_spec fun k y h => h.left_of_none hstate).conseq
      (fun y (h : y = x) => h ▸ hx) (fun _ h => h) fun _ _ h => h) (fun _ => ?_)
      fun e y h => .inr ⟨nofun, hw, h⟩
    exact Spec.fail fun y h => .inr ⟨nofun, hw, h⟩
  · refine Spec.pure fun x hx => ?_
    obtain ⟨-, hx⟩ | ⟨hno, -⟩ := hx
    · exact .inl ⟨rfl, hx⟩
    · exact absurd rfl hno

theorem create_spec
    (hnot : w.target.identity codec = some old → ¬ w.Keeps codec calls deployment)
    (hstate : present w.dir.state = false) :
    Spec (fun x => ∃ k, At w k w.dir.state x) (createLochoHostState codec calls)
      (Left codec w calls deployment old) fun r x => Left codec w calls deployment old x ∧
        (r = .ok () → Ready codec w calls deployment old x) := by
  have hleft : ∀ x, (∃ k, At w k w.dir.state x) → Left codec w calls deployment old x :=
    fun x ⟨k, h⟩ => h.left_of_none hstate
  refine Spec.bind (labelled_spec Spec.lift) (fun seed => ?_) fun e x h => ⟨hleft x ?_, nofun⟩
  swap
  · rcases h with ⟨a, ha, -⟩ | ⟨-, e', h, -⟩
    · cases ha
    · exact h
  refine Spec.of_pre fun x₀ hx₀ => ?_
  obtain ⟨a, ha, hpre, hseed⟩ | ⟨hno, -⟩ := hx₀
  swap
  · exact absurd rfl (hno seed)
  cases ha
  refine Spec.bind Spec.lift (fun st => ?_) fun e x h => ⟨hleft x (h.1 ▸ hpre), nofun⟩
  refine Spec.of_pre fun x hx => ?_
  obtain ⟨rfl, hst⟩ := hx
  obtain ⟨hsup, attach, services, hsec, -⟩ := generated_state hst.symm
  obtain ⟨k, hk⟩ := hpre
  refine Spec.bind refuse_spec (fun _ => ?_) fun e y h => ⟨hleft y (h.1 ▸ ⟨k, hk⟩), nofun⟩
  refine Spec.bind refuse_spec (fun _ => ?_) fun e y h => ⟨hleft y (h.1.1 ▸ ⟨k, hk⟩), nofun⟩
  refine Spec.bind (Q := fun _ => At w k w.dir.state)
    (Spec.write (fun y h => ?_) fun y h => ?_) (fun _ => ?_) fun e y h => ⟨hleft y ⟨k, h⟩, nofun⟩
  · exact (h.1.1 ▸ hk.secured : At w k w.dir.state _).left_of_none hstate
  · exact h.1.1 ▸ hk.secured
  have hput : ∀ z, At w k w.dir.state z →
      At w (some (.file true seed.toList)) w.dir.state (z.mapDir (·.setKey seed.toList)) :=
    fun z h => ⟨h.target, h.directory, rfl, h.state⟩
  have horigin : Origin codec w calls deployment old ⟨seed.toList, attach, services⟩ :=
    fun hold => .inr (.inr ⟨hnot hold, .inl ⟨seed, hseed.symm, rfl⟩⟩)
  refine Spec.bind (labelled_spec ((write_spec hput).conseq (fun _ h => h) (fun z h => ?_)
    fun _ _ h => h)) (fun _ => ?_) fun e z h => ⟨hleft z ?_, nofun⟩
  · rcases h with h | ⟨-, h⟩ <;> exact h.left_of_none hstate
  · refine (stateOrRemove_spec seed.length_toList hstate hsup hsec fun _ => horigin).conseq
      (fun z h => ?_) (fun _ h => h) fun r z h => ?_
    · obtain ⟨_, -, ⟨-, -, h⟩ | ⟨hno, -⟩⟩ | ⟨hno, -⟩ := h
      · exact h
      · exact absurd rfl hno
      · exact absurd rfl (hno ())
    · obtain ⟨-, hl, hr⟩ | ⟨hno, -, h⟩ := h
      · exact ⟨hl, fun _ => hr⟩
      · exact ⟨hleft z h, fun he => absurd he (hno ())⟩
  · obtain ⟨_, he, -⟩ | ⟨-, _, ⟨he, -⟩ | ⟨-, -, h⟩⟩ := h
    · cases he
    · cases he
    · exact ⟨k, h⟩

theorem keeps_iff_adopts (hkey : present w.dir.key = false) (hstate : present w.dir.state = false) :
    w.Keeps codec calls deployment ↔ calls.Adopts deployment := by
  rw [HostWorld.Keeps, hkey, hstate]

theorem target_files {seed : List UInt8} {raw : R}
    (hseed : w.target.key.bind Entry.regular = some seed)
    (hraw : w.target.state.bind Entry.regular = some raw)
    (hold : w.target.identity codec = some old) :
    old.seed = seed ∧ ∃ st, codec.supported seed raw = some st ∧
      st.secrets = some (old.attach, old.services) := by
  rw [TargetFiles.identity, hseed, hraw] at hold
  exact identity_eq_some.mp hold

/-- A pull that answers true has taken the target's files, and one that does not was not
careful. -/
theorem pull_spec (hkey : present w.dir.key = false) (hstate : present w.dir.state = false)
    (hdep : deployment.isSome = true) :
    Spec (At w w.dir.key w.dir.state) (pullTargetLochoHostState codec calls)
      (Left codec w calls deployment old) fun r x =>
        r = .ok true ∧ Left codec w calls deployment old x ∧ Ready codec w calls deployment old x ∨
          r ≠ .ok true ∧ (w.target.identity codec = some old → ¬ w.Keeps codec calls deployment) ∧
            ∃ k, At w k w.dir.state x := by
  have hkeeps : w.Keeps codec calls deployment ↔ calls.Adopts deployment :=
    keeps_iff_adopts hkey hstate
  refine Spec.get_bind fun x hx => ?_
  rw [hx.target]
  split
  swap
  · rename_i hno
    refine Spec.pure fun y h => .inr ⟨nofun, fun hold => ?_, w.dir.key, h ▸ hx⟩
    rw [TargetFiles.identity] at hold
    obtain ⟨seed, hseed, hold⟩ := Option.bind_eq_some_iff.mp hold
    obtain ⟨raw, hraw, -⟩ := Option.bind_eq_some_iff.mp hold
    exact absurd hraw (hno seed raw hseed)
  rename_i seed raw hseed hraw
  refine Spec.ite (fun hunreach => Spec.pure fun y h => ?_) fun hreach => ?_
  · refine .inr ⟨nofun, fun _ hk => ?_, w.dir.key, h ▸ hx⟩
    exact Bool.noConfusion (hunreach.symm.trans (hkeeps.mp hk).2.1)
  refine Spec.bind refuse_spec (fun _ => ?_) fun e y h =>
    .inr ⟨nofun, fun _ hk => (nomatch h.2.mpr (hkeeps.mp hk).2.2.1), w.dir.key, h.1 ▸ hx⟩
  refine Spec.of_pre fun y hy => ?_
  obtain ⟨rfl, hread⟩ := hy
  replace hread := hread.mp rfl
  refine Spec.ite (fun hlen => Spec.fail fun z h => ?_) fun hlen => ?_
  · refine .inr ⟨nofun, fun hold => ?_, w.dir.key, h ▸ hx⟩
    obtain ⟨-, st, hst, -⟩ := target_files hseed hraw hold
    exact absurd (supported_eq_some.mp hst).1 hlen
  replace hlen := not_not.mp hlen
  refine Spec.bind Spec.lift (fun parsed => ?_) fun e z h => ?_
  swap
  · refine .inr ⟨nofun, fun hold => ?_, w.dir.key, h.1 ▸ hx⟩
    obtain ⟨-, st, hst, hsec⟩ := target_files hseed hraw hold
    obtain ⟨-, hun, hsup⟩ := supported_eq_some.mp hst
    obtain ⟨parsed, hparsed⟩ : ∃ parsed,
        parseAndRepairLochoHostState codec calls.repair raw _ = .ok parsed :=
      exists_parsed hun hsup hsec
    cases h.2.trans hparsed
  obtain ⟨state', changed⟩ := parsed
  refine Spec.of_pre fun z hz => ?_
  obtain ⟨rfl, hparse⟩ := hz
  obtain ⟨hsup', st, hun, -, attach, services, hsec', hcases⟩ := parsed_state hparse.symm
  -- valid secrets are not repaired
  have hsame : w.target.identity codec = some old →
      (⟨seed, attach, services⟩ : HostIdentity) = old := by
    intro hold
    obtain ⟨hold', st', hst', hsec⟩ := target_files hseed hraw hold
    obtain rfl : st = st' := Option.some.inj (hun.symm.trans (supported_eq_some.mp hst').2.1)
    rcases hcases with h | ⟨-, h, -⟩
    · obtain ⟨rfl, rfl⟩ := Prod.mk.inj (Option.some.inj (hsec.symm.trans h))
      exact hold' ▸ rfl
    · cases hsec.symm.trans h
  have hput : ∀ z, At w w.dir.key w.dir.state z →
      At w (some (.file true seed)) w.dir.state (z.mapDir (·.setKey seed)) :=
    fun z h => ⟨h.target, h.directory, rfl, h.state⟩
  refine Spec.bind ((write_spec hput).conseq (fun y (h : y = z) => h ▸ hx) (fun y h => ?_)
    fun _ _ h => h) (fun _ => ?_) fun e y h => ?_
  · rcases h with h | ⟨-, h⟩ <;> exact h.left_of_none hstate
  · refine Spec.of_pre fun y hy => ?_
    obtain ⟨-, hadopt, hy⟩ | ⟨hno, -⟩ := hy
    swap
    · exact absurd rfl hno
    refine (stateOrRemove_spec hlen hstate hsup' hsec' fun hw hold =>
      .inr (.inl ⟨hsame hold, ?_⟩)).conseq (fun y' (h : y' = y) => h ▸ hy) (fun _ h => h)
        fun r y' h => ?_
    · exact hkeeps.mpr ⟨hdep, Bool.not_eq_true _ ▸ hreach, hread, hadopt, hw⟩
    · rcases h with h | ⟨hno, hw, h⟩
      · exact .inl h
      · exact .inr ⟨hno true, fun _ hk => hw (hkeeps.mp hk).2.2.2.2, h⟩
  · obtain ⟨he, -⟩ | ⟨-, hw, h⟩ := h
    · cases he
    · exact .inr ⟨nofun, fun _ hk => hw (hkeeps.mp hk).2.2.2.1, w.dir.key, h⟩

theorem adoptOrCreate_spec (hkey : present w.dir.key = false)
    (hstate : present w.dir.state = false) :
    Spec (At w w.dir.key w.dir.state) (adoptOrCreate codec calls deployment)
      (Left codec w calls deployment old) fun r x => Left codec w calls deployment old x ∧
        (r = .ok () → Ready codec w calls deployment old x) := by
  cases hdep : deployment with
  | none =>
      have hnot : ¬ w.Keeps codec calls none := by
        rw [keeps_iff_adopts hkey hstate]
        exact fun h => Bool.noConfusion h.1
      exact (create_spec (fun _ => hnot) hstate).conseq (fun x h => ⟨_, h⟩) (fun _ h => h) fun _ _ h => h
  | some d =>
      refine Spec.attempt_bind (pull_spec hkey hstate rfl) fun r => ?_
      have hcreate : ∀ q : Except String Bool, q ≠ .ok true → Spec (fun x =>
          q = .ok true ∧ Left codec w calls (some d) old x ∧ Ready codec w calls (some d) old x ∨
            q ≠ .ok true ∧ (w.target.identity codec = some old → ¬ w.Keeps codec calls (some d)) ∧
              ∃ k, At w k w.dir.state x)
          (createLochoHostState codec calls) (Left codec w calls (some d) old) fun r x =>
            Left codec w calls (some d) old x ∧
              (r = .ok () → Ready codec w calls (some d) old x) := by
        refine fun q hno => Spec.of_pre fun x h => ?_
        obtain ⟨hr, -⟩ | ⟨-, hnot, h⟩ := h
        · exact absurd hr hno
        · exact (create_spec hnot hstate).conseq (fun y (hy : y = x) => hy ▸ h) (fun _ h => h)
            fun _ _ h => h
      rcases r with e | _ | _
      · exact hcreate (.error e) nofun
      · exact hcreate (.ok false) nofun
      · refine Spec.pure fun x h => ?_
        obtain ⟨-, hl, hr⟩ | ⟨hno, -⟩ := h
        · exact ⟨hl, fun _ => hr⟩
        · exact absurd rfl hno

theorem present_of_found {α : Type} {fault : Option String} {entry : Option (Entry α)}
    (h : Stat.of fault entry = .found) : present entry = true := by
  rcases fault with _ | e
  · rcases entry with _ | ⟨_, _⟩ | _ | _ <;> simp_all [Stat.of, present]
  · cases h

theorem absent_of_notExist {α : Type} {fault : Option String} {entry : Option (Entry α)}
    (h : Stat.of fault entry = .notExist) : present entry = false := by
  rcases fault with _ | e
  · rcases entry with _ | ⟨_, _⟩ | _ | _ <;> simp_all [Stat.of, present]
  · cases h

theorem ensure_spec {config : HostConfig} (henabled : config.LochoHostEnabled = true) :
    Spec (· = w) (ensureLochoHostState codec calls deployment config)
      (Left codec w calls deployment old) fun r x => Left codec w calls deployment old x ∧
        (r = .ok () → Ready codec w calls deployment old x) := by
  have hpre : ∀ y, y = w → At w w.dir.key w.dir.state y := by
    rintro _ rfl
    exact At.refl _
  unfold ensureLochoHostState
  rw [henabled]
  refine Spec.bind refuse_spec (fun _ => ?_) fun e x h => ⟨(hpre x h.1).left, nofun⟩
  refine Spec.get_bind fun x hx => ?_
  obtain ⟨rfl, -⟩ := hx
  have hfail : ∀ e, Spec (· = x) (Prog.fail (α := Unit) e : HostAction R Unit)
      (Left codec x calls deployment old) fun r y => Left codec x calls deployment old y ∧
        (r = .ok () → Ready codec x calls deployment old y) :=
    fun e => Spec.fail fun y h => ⟨(hpre y h).left, nofun⟩
  split
  · rename_i hk hs
    exact (validate_spec (present_of_found hk) (present_of_found hs)).conseq hpre
      (fun _ h => h) fun _ _ h => h
  · exact hfail _
  · exact hfail _
  · exact hfail _
  · rename_i hk hs
    exact (complete_spec (present_of_found hk) (absent_of_notExist hs)).conseq hpre
      (fun _ h => h) fun _ _ h => h
  · rename_i hk hs
    exact (adoptOrCreate_spec (absent_of_notExist hk) (absent_of_notExist hs)).conseq hpre
      (fun _ h => h) fun _ _ h => h

end Ensure

/-! ## Uploads -/

section Sync

variable {R : Type} {codec : HostCodec R} {w : HostWorld R} {calls : HostCalls R}
  {deployment : Deployment} {config : HostConfig} {old : HostIdentity}

/-- Nothing but the whole file arrives. -/
def Transfer.Whole {α : Type} : Transfer α → Prop
  | .cut .. => False
  | .done | .refused _ | .lost _ => True

instance {α : Type} : DecidablePred (Transfer.Whole (α := α))
  | .cut .. => inferInstanceAs (Decidable False)
  | .done | .refused _ | .lost _ => inferInstanceAs (Decidable True)

theorem upload_spec {α : Type} {transfer : Transfer α} {contents : α}
    {put : Entry α → TargetFiles R → TargetFiles R} {x : HostWorld R} :
    Spec (· = x) (uploadFile deployment transfer (some (.file true contents)) put)
      (fun y => transfer.Whole → y = x.mapTarget (put (.file true contents)))
      fun r y => (r = .ok () → y = x.mapTarget (put (.file true contents))) ∧
        (transfer.Whole → y = x ∨ y = x.mapTarget (put (.file true contents))) := by
  rintro _ rfl
  cases transfer with
  | done => cases deployment <;> simp [uploadFile, Entry.regular]
  | refused e => cases deployment <;> simp [uploadFile, Entry.regular]
  | lost e => cases deployment <;> simp [uploadFile, Entry.regular]
  | cut arrived e => cases deployment <;> simp [uploadFile, Entry.regular, Transfer.Whole]

/-- The target holds `old`, and the state directory nothing else. -/
structure Kept (codec : HostCodec R) (old : HostIdentity) (x : HostWorld R) : Prop where
  target : x.target.identity codec = some old
  dir : ∀ i, x.dir.identity codec = some i → i = old

/-- A run from a kept identity that keeps it. -/
structure KeepsRun (codec : HostCodec R) (w : HostWorld R) (calls : HostCalls R)
    (deployment : Option Deployment) (old : HostIdentity) : Prop where
  kept : Kept codec old w
  keeps : w.Keeps codec calls deployment

theorem KeepsRun.eq_old {deployment : Option Deployment} {i : HostIdentity}
    (h : KeepsRun codec w calls deployment old) (ho : Origin codec w calls deployment old i) :
    i = old := by
  rcases ho h.kept.target with hi | ⟨hi, -⟩ | ⟨hnot, -⟩
  · exact h.kept.dir i hi
  · exact hi
  · exact absurd h.keeps hnot

theorem KeepsRun.left {deployment : Option Deployment} {x : HostWorld R}
    (h : KeepsRun codec w calls deployment old) (hx : Left codec w calls deployment old x) :
    Kept codec old x :=
  ⟨hx.target ▸ h.kept.target, fun i hi => h.eq_old (hx.origin i hi)⟩

/-- Both files were uploaded. -/
def Uploaded (codec : HostCodec R) (w : HostWorld R) (calls : HostCalls R)
    (deployment : Deployment) (old : HostIdentity) (x : HostWorld R) : Prop :=
  ∃ seed raw i, x.dir.key = some (.file true seed) ∧ x.dir.state = some (.file true raw) ∧
    x.target = ⟨some (.file true seed), some (.file true raw)⟩ ∧
    codec.identity seed raw = some i ∧ Origin codec w calls (some deployment) old i

theorem sync_spec (henabled : config.LochoHostEnabled = true) :
    Spec (· = w) (syncLochoHostState codec calls deployment config)
      (fun x => KeepsRun codec w calls (some deployment) old → calls.uploadKey.Whole →
        calls.uploadState.Whole → Kept codec old x)
      fun r x => (KeepsRun codec w calls (some deployment) old → calls.uploadKey.Whole →
        calls.uploadState.Whole → Kept codec old x) ∧
          (r = .ok () → Uploaded codec w calls deployment old x) := by
  unfold syncLochoHostState
  rw [henabled]
  have hensure : Spec (· = w) (ensureLochoHostState codec calls (some deployment) config)
      (Left codec w calls (some deployment) old) fun r x =>
        Left codec w calls (some deployment) old x ∧
          (r = .ok () → Ready codec w calls (some deployment) old x) := ensure_spec henabled
  refine Spec.bind (hensure.conseq (fun _ h => h)
    (fun x h hk _ _ => hk.left h) fun _ _ h => h) (fun _ => ?_)
    fun e x h => ⟨fun hk _ _ => hk.left h.1, nofun⟩
  refine Spec.of_pre fun y hy => ?_
  obtain ⟨hleft, hready⟩ := hy
  obtain ⟨seed, raw, i, hkey, hstate, hid, horigin⟩ := hready rfl
  let y₁ := y.mapTarget fun t => { t with key := some (.file true seed) }
  let y₂ := y₁.mapTarget fun t => { t with state := some (.file true raw) }
  have hkept₁ : KeepsRun codec w calls (some deployment) old → Kept codec old y₁ := by
    intro hk
    obtain ⟨htarget, hdir⟩ := hk.left hleft
    refine ⟨?_, hdir⟩
    obtain ⟨seed', hseed', htarget'⟩ := Option.bind_eq_some_iff.mp htarget
    obtain ⟨raw', hraw', hid'⟩ := Option.bind_eq_some_iff.mp htarget'
    obtain rfl := hk.eq_old horigin
    obtain rfl : seed = seed' := (identity_eq_some.mp hid).1.symm.trans (identity_eq_some.mp hid').1
    exact Option.bind_eq_some_iff.mpr ⟨seed, rfl, htarget'⟩
  have hkept₂ : KeepsRun codec w calls (some deployment) old → Kept codec old y₂ := by
    intro hk
    exact ⟨hk.eq_old horigin ▸ hid, (hk.left hleft).dir⟩
  refine Spec.bind refuse_spec (fun _ => ?_) fun e x h => ⟨fun hk _ _ => ?_, nofun⟩
  swap
  · exact h.1 ▸ hk.left hleft
  refine Spec.get_bind fun x hx => ?_
  obtain ⟨rfl, -⟩ := hx
  rw [hkey]
  refine Spec.bind (labelled_spec (upload_spec.conseq (fun _ h => h)
    (fun t ht hk hwhole _ => ht hwhole ▸ hkept₁ hk) fun _ _ h => h)) (fun _ => ?_) fun e t h => ?_
  swap
  · obtain ⟨_, he, -⟩ | ⟨-, _, -, h⟩ := h
    · cases he
    · refine ⟨fun hk hwhole _ => ?_, nofun⟩
      rcases h hwhole with rfl | rfl
      · exact hk.left hleft
      · exact hkept₁ hk
  refine Spec.get_bind fun t ht => ?_
  obtain rfl : t = y₁ := by
    obtain ⟨_, -, h, -⟩ | ⟨hno, -⟩ := ht
    · exact h rfl
    · exact absurd rfl (hno _)
  have hstate' : y₁.dir.state = some (.file true raw) := hstate
  rw [hstate']
  refine (labelled_spec (upload_spec.conseq (fun _ h => h)
    (fun t ht hk _ hwhole => ht hwhole ▸ hkept₂ hk) fun _ _ h => h)).conseq (fun _ h => h)
      (fun _ h => h) fun r t h => ?_
  obtain ⟨_, rfl, hdone, -⟩ | ⟨hno, _, -, h⟩ := h
  · obtain rfl : t = y₂ := hdone rfl
    refine ⟨fun hk _ _ => hkept₂ hk, fun _ => ?_⟩
    exact ⟨seed, raw, i, hkey, hstate, rfl, hid, horigin⟩
  · refine ⟨fun hk _ hwhole => ?_, fun he => absurd he (hno _)⟩
    rcases h hwhole with rfl | rfl
    · exact hkept₁ hk
    · exact hkept₂ hk

end Sync

/-! ## Deployments -/

section Runs

variable {R : Type} {codec : HostCodec R}

/-- A run that needs no files of its own making, and whose uploads are whole. -/
def HostWorld.Careful (codec : HostCodec R) (w : HostWorld R) : HostRun R → Prop
  | .ensure deployment config calls _ =>
      config.LochoHostEnabled = true → w.Keeps codec calls deployment
  | .sync deployment config calls _ =>
      config.LochoHostEnabled = true → w.Keeps codec calls (some deployment) ∧
        calls.uploadKey.Whole ∧ calls.uploadState.Whole

/-- The target has the local files, and the endpoint is that of the key. -/
def Synced (codec : HostCodec R) (w : HostWorld R) : Prop :=
  ∃ seed raw state, w.dir.key = some (.file true seed) ∧ w.dir.state = some (.file true raw) ∧
    w.target = ⟨w.dir.key, w.dir.state⟩ ∧ codec.unmarshal raw = some state ∧
    state.EndpointID = codec.deriveLochoEndpointID seed

theorem halt_of_disabled {p : HostAction R Unit} {b : Bool} {crash : Option Nat}
    {w x : HostWorld R} (hb : b = false)
    (h : (if (!b) = true then pure () else p : HostAction R Unit).halt w crash = some x) :
    x = w := by
  subst hb
  cases crash with
  | none => exact (Option.some.inj h).symm
  | some n =>
      cases n with
      | zero => exact (Option.some.inj h).symm
      | succ n => cases h

theorem next_kept {old : HostIdentity} {w x : HostWorld R} {a : HostRun R}
    (hk : Kept codec old w) (hn : w.next codec a x) (hc : w.Careful codec a) :
    Kept codec old x := by
  cases a with
  | ensure deployment config calls crash =>
      cases henabled : config.LochoHostEnabled with
      | false => exact halt_of_disabled henabled hn ▸ hk
      | true =>
          have hrun : KeepsRun codec w calls deployment old := ⟨hk, hc henabled⟩
          exact Spec.halt ((ensure_spec henabled).conseq (fun _ h => h) (fun _ h => hrun.left h)
            fun _ _ h => hrun.left h.1) hk (fun _ _ h => h) hn
  | sync deployment config calls crash =>
      cases henabled : config.LochoHostEnabled with
      | false => exact halt_of_disabled henabled hn ▸ hk
      | true =>
          obtain ⟨hkeeps, hkey, hstate⟩ := hc henabled
          have hrun : KeepsRun codec w calls (some deployment) old := ⟨hk, hkeeps⟩
          exact Spec.halt ((sync_spec henabled).conseq (fun _ h => h)
            (fun _ h => h hrun hkey hstate) fun _ _ h => h.1 hrun hkey hstate) hk
              (fun _ _ h => h) hn

theorem uploaded_of_sync {w : HostWorld R} {calls : HostCalls R} {deployment : Deployment}
    {config : HostConfig} (henabled : config.LochoHostEnabled = true)
    (hok : ((syncLochoHostState codec calls deployment config).run w).result = .ok ())
    (i : HostIdentity) :
    Uploaded codec w calls deployment i
      ((syncLochoHostState codec calls deployment config).run w).final := by
  obtain ⟨-, -, h⟩ := sync_spec henabled w rfl
  exact h hok

theorem synced_of_uploaded {w x : HostWorld R} {calls : HostCalls R} {deployment : Deployment}
    {old : HostIdentity} (h : Uploaded codec w calls deployment old x) : Synced codec x := by
  obtain ⟨seed, raw, i, hkey, hstate, htarget, hid, -⟩ := h
  obtain ⟨-, state, hsup, -⟩ := identity_eq_some.mp hid
  obtain ⟨-, hun, hsup⟩ := supported_eq_some.mp hsup
  exact ⟨seed, raw, state, hkey, hstate, by rw [htarget, hkey, hstate], hun, hsup.2⟩

/-- Careful runs keep the identity of a target whose state directory has none; a run that
succeeds leaves the same files on both sides, and with seeds and secrets that were never
used it keeps the identity if and only if it was careful. -/
theorem host_identity_kept (codec : HostCodec R) :
    (∀ (w₀ : HostWorld R) (old : HostIdentity) (taken : List (Taken (HostWorld R) (HostRun R)))
      (w : HostWorld R), w₀.target.identity codec = some old → w₀.dir.identity codec = none →
      Run (HostWorld.next codec) w₀ taken w → (∀ x ∈ taken, x.before.Careful codec x.action) →
        w.target.identity codec = some old ∧
          ∀ x ∈ taken, x.after.target.identity codec = some old) ∧
    (∀ (w : HostWorld R) (deployment : Deployment) (config : HostConfig) (calls : HostCalls R),
      config.LochoHostEnabled = true →
      ((syncLochoHostState codec calls deployment config).run w).result = .ok () →
        Synced codec ((syncLochoHostState codec calls deployment config).run w).final) ∧
    (∀ (w : HostWorld R) (old : HostIdentity) (deployment : Deployment) (config : HostConfig)
      (calls : HostCalls R), config.LochoHostEnabled = true →
      w.target.identity codec = some old → w.dir.identity codec = none → ¬ calls.Drew old →
      ((syncLochoHostState codec calls deployment config).run w).result = .ok () →
        (((syncLochoHostState codec calls deployment config).run w).final.target.identity codec =
          some old ↔ w.Keeps codec calls (some deployment))) := by
  refine ⟨fun w₀ old taken w htarget hdir hrun hc => ?_, fun w deployment config calls henabled
    hok => ?_, fun w old deployment config calls henabled htarget hdir hdrew hok => ?_⟩
  · have hk : Kept codec old w₀ := ⟨htarget, fun i hi => by rw [hdir] at hi; cases hi⟩
    obtain ⟨hw, hall⟩ := hrun.invariant_of (C := fun x => x.before.Careful codec x.action) hk
      (fun _ _ _ hi hn hx => next_kept hi hn hx) hc
    exact ⟨hw.target, fun x hx => (hall x hx).2.target⟩
  · exact synced_of_uploaded (uploaded_of_sync henabled hok ⟨[], "", ∅⟩)
  · obtain ⟨seed, raw, i, -, -, hfiles, hid, horigin⟩ := uploaded_of_sync henabled hok old
    have hidentity : TargetFiles.identity codec
        ((syncLochoHostState codec calls deployment config).run w).final.target = some i := by
      rw [hfiles]
      exact hid
    rw [hidentity]
    rcases horigin htarget with hi | ⟨rfl, hkeeps⟩ | ⟨hnot, hdrawn⟩
    · rw [hdir] at hi
      cases hi
    · exact iff_of_true rfl hkeeps
    · refine iff_of_false (fun he => ?_) hnot
      obtain rfl := Option.some.inj he
      exact hdrew hdrawn

end Runs

/-! ## One host -/

section OneHost

/-- Files that hold the state itself. -/
def plainCodec : HostCodec (Option LochoPersistedHostState) where
  marshal := some
  unmarshal := id
  unmarshal_marshal _ := rfl
  deriveLochoEndpointID seed := String.ofList (seed.map fun b => Char.ofNat b.toNat)

def oldSeed : Random := Vector.replicate 32 97

def oldHost : TargetFiles (Option LochoPersistedHostState) :=
  ⟨some (.file false oldSeed.toList), some (.file false (some ⟨1,
    plainCodec.deriveLochoEndpointID oldSeed.toList, hexString oldSeed,
    some (Finmap.insert "workspace-ui" (hexString oldSeed) ∅)⟩))⟩

/-- A CLI without files and a target that has a host. -/
def newOperator : HostWorld (Option LochoPersistedHostState) := ⟨⟨true, false, none, none⟩, oldHost⟩

def hostCalls (unreachable : Bool) (uploadState : Transfer (Option LochoPersistedHostState)) :
    HostCalls (Option LochoPersistedHostState) where
  placed := none
  statKey := none
  statState := none
  lstatDir := false
  secureDir := none
  lstatKey := false
  readKey := none
  lstatState := false
  readState := none
  unreachable := unreachable
  readTarget := none
  adoptKey := ⟨none, none⟩
  adoptState := ⟨none, none⟩
  repair := ⟨.error "rand", .error "rand"⟩
  seed := .ok (Vector.replicate 32 98)
  fresh := ⟨.ok (Vector.replicate 32 98), .ok (Vector.replicate 32 98)⟩
  makeDir := none
  writeKey := ⟨none, none⟩
  writeState := ⟨none, none⟩
  removeKey := false
  saveConfig := none
  uploadKey := .done
  uploadState := uploadState

instance {R : Type} (calls : HostCalls R) (deployment : Option Deployment) :
    Decidable (calls.Adopts deployment) :=
  inferInstanceAs (Decidable (_ ∧ _ ∧ _ ∧ _ ∧ _))

instance {R : Type} (codec : HostCodec R) (w : HostWorld R) (calls : HostCalls R)
    (deployment : Option Deployment) : Decidable (w.Keeps codec calls deployment) := by
  unfold HostWorld.Keeps
  split <;> infer_instance

instance {R : Type} (codec : HostCodec R) (w : HostWorld R) :
    DecidablePred (w.Careful codec)
  | .ensure deployment config calls _ => inferInstanceAs (Decidable
      (config.LochoHostEnabled = true → w.Keeps codec calls deployment))
  | .sync deployment config calls _ => inferInstanceAs (Decidable
      (config.LochoHostEnabled = true → w.Keeps codec calls (some deployment) ∧
        calls.uploadKey.Whole ∧ calls.uploadState.Whole))

def hostConfig : HostConfig := ⟨true, ""⟩

def oldIdentity : HostIdentity :=
  ⟨oldSeed.toList, hexString oldSeed, Finmap.insert "workspace-ui" (hexString oldSeed) ∅⟩

theorem newOperator_target : newOperator.target.identity plainCodec = some oldIdentity := by
  decide +kernel

/-- The first run crashes when both files are adopted, and the upload of the second fails
after the file is in place. -/
theorem host_identity_kept_newOperator :
    (∃ taken w, Run (HostWorld.next plainCodec) newOperator taken w ∧ taken.length = 3 ∧
      w.target.identity plainCodec = some oldIdentity) ∧
    Synced plainCodec ((syncLochoHostState plainCodec (hostCalls false .done) .Remote
      hostConfig).run newOperator).final ∧
    ((syncLochoHostState plainCodec (hostCalls false .done) .Remote
      hostConfig).run newOperator).final.target.identity plainCodec = some oldIdentity := by
  obtain ⟨hruns, hsynced, hkeeps⟩ := host_identity_kept plainCodec
  refine ⟨?_, hsynced _ _ _ _ rfl (by decide +kernel), ?_⟩
  · obtain ⟨taken, w, hrun, hp⟩ := exists_run_of_trace (HostWorld.step plainCodec) newOperator
      [.sync .Remote hostConfig (hostCalls false .done) (some 4),
        .sync .Remote hostConfig (hostCalls false (.lost "connection reset")) none,
        .sync .Remote hostConfig (hostCalls false .done) none]
      (fun r => decide (r.1.length = 3) && decide (∀ x ∈ r.1, x.before.Careful plainCodec x.action))
      (by decide +kernel)
    obtain ⟨hlen, hc⟩ := (Bool.and_eq_true _ _).mp hp
    exact ⟨taken, w, hrun, of_decide_eq_true hlen,
      (hruns _ _ _ _ newOperator_target rfl hrun (of_decide_eq_true hc)).1⟩
  · refine (hkeeps _ _ _ _ _ rfl newOperator_target rfl ?_ (by decide +kernel)).mpr
      (by decide +kernel)
    rintro (⟨seed, hseed, h⟩ | (h | h) | (h | h))
    · obtain rfl : Vector.replicate 32 98 = seed := Except.ok.inj hseed
      exact absurd h (by decide +kernel)
    · cases h
    · cases h
    · exact absurd h (by decide +kernel)
    · exact absurd h (by decide +kernel)

/-- A target that is not reached is given another host. -/
theorem host_replaced :
    newOperator.target.identity plainCodec = some oldIdentity ∧
    newOperator.dir.identity plainCodec = none ∧
    ∃ taken w, Run (HostWorld.next plainCodec) newOperator taken w ∧
      ∃ new, w.target.identity plainCodec = some new ∧ new.seed ≠ oldIdentity.seed ∧
        new.attach ≠ oldIdentity.attach ∧ new.services ≠ oldIdentity.services := by
  refine ⟨newOperator_target, rfl, ?_⟩
  obtain ⟨taken, w, hrun, hp⟩ := exists_run_of_trace (HostWorld.step plainCodec) newOperator
    [.sync .Remote hostConfig (hostCalls true .done) none]
    (fun r => (r.2.target.identity plainCodec).any fun new : HostIdentity =>
      decide (new.seed ≠ oldIdentity.seed) && (decide (new.attach ≠ oldIdentity.attach) &&
        decide (new.services ≠ oldIdentity.services)))
    (by decide +kernel)
  obtain ⟨new, hnew, hp⟩ := (Option.any_eq_true _ _).mp hp
  simp only [Bool.and_eq_true, decide_eq_true_eq] at hp
  exact ⟨taken, w, hrun, new, hnew, hp⟩

end OneHost

end Openlia.Cli
