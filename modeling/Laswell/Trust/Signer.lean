import Laswell.Trust.Base64

/-!
# Laswell.Trust.Signer

The second gate on a signature, `Ledger::verify_signer`, and the row the ledger keeps of it,
`Ledger::record_migration`.

The gate goes down the list of signatures until one names a key that the database holds, and that
one decides. It answers with the key; the row is given the signature of the first of the list.

* `verifySigner_verified`: which entry an accepted specification was accepted by.
* `recordMigration_faithful_iff`: when the row has the signature that was verified.
* `recordEach_verifies`: so the rows of a ledger stay verifiable over any calls that meet that.
-/

namespace Laswell
namespace Trust

open Canonical

/-! ## The specification and the database -/

/-- A member of a signature: text, or a value of another type, by the name of the type. -/
inductive Field where
  | absent
  | text (s : Bytes)
  | other (type : Bytes)
  deriving DecidableEq

/-- An entry of `signatures`, which the parser does not look into. -/
inductive Signature where
  | object (keyId signature : Field)
  | other (type : Bytes)
  deriving DecidableEq

/-- `sig["key_id"]`, where the entry has one that is text. -/
def Signature.keyId : Signature → Option Bytes
  | .object (.text keyId) _ => some keyId
  | _ => none

/-- `sig.value("signature", "")` -/
def Signature.value : Signature → Except Bytes Bytes
  | .object _ .absent => .ok []
  | .object _ (.text s) => .ok s
  | .object _ (.other type) =>
    .error (ascii "[json.exception.type_error.302] type must be string, but is " ++ type)
  | .other type =>
    .error (ascii "[json.exception.type_error.306] cannot use value() with " ++ type)

structure SignedSpec where
  id : Bytes
  digest : Bytes
  targetEpoch : Bytes := []
  canonicalBytes : Bytes
  signatures : List Signature

structure TrustedKey where
  publicKey : Bytes
  label : Bytes
  revoked : Bool := false
  deriving DecidableEq

/-- `laswell.trusted_key`: the row of a key id, and the ids `status` lists. -/
structure TrustedKeys where
  lookup : Bytes → Option TrustedKey
  ids : List Bytes

structure SignatureCheck where
  verified : Bool := false
  keyId : Bytes := []
  label : Bytes := []
  reason : Bytes := []

structure MigrationRow where
  specId : Bytes
  specDigest : Bytes
  epoch : Bytes
  canonicalBytes : Bytes
  signerKeyId : Bytes
  signature : Bytes
  deriving DecidableEq

/-! ## The gate -/

section Gate

variable (ed25519 : Bytes → Bytes → Bytes → Bool)

/-- `ed25519` is `EVP_DigestVerify`. -/
def verifyEd25519 (publicKey message signature : Bytes) : Bool :=
  if publicKey.length ≠ 32 then false
  else if signature.length ≠ 64 then false
  else ed25519 publicKey message signature

/-- One id more in a list of them as text. -/
def listed (ids keyId : Bytes) : Bytes := if ids = [] then keyId else ids ++ ascii ", " ++ keyId

/-- The bytes of the entry's signature, or why there are none. -/
def Signature.raw (sig : Signature) : Except Bytes Bytes :=
  match sig.value with
  | .error what => .error what
  | .ok text => (base64Decode text).mapError Base64Error.what

/-- What an entry decides when it names a key that the database holds. -/
def judge (spec : SignedSpec) (sig : Signature) (keyId : Bytes) (key : TrustedKey) :
    SignatureCheck :=
  if key.revoked then { reason := ascii "key " ++ keyId ++ ascii " is revoked in this database" }
  else
    match sig.raw with
    | .error what =>
      { reason := ascii "signature for " ++ keyId ++ ascii " is not valid base64: " ++ what }
    | .ok raw =>
      if verifyEd25519 ed25519 key.publicKey spec.canonicalBytes raw then
        { verified := true, keyId := keyId, label := key.label }
      else
        { reason := ascii "signature by " ++ keyId ++
            ascii " does not verify against the public key this database holds for that id" }

def checkSignatures (keys : TrustedKeys) (spec : SignedSpec) (offered : Bytes) :
    List Signature → SignatureCheck
  | [] =>
    let trusted := keys.ids.foldl listed []
    { reason := ascii "the spec is signed by [" ++ offered ++
        ascii "], and this database trusts [" ++
        (if trusted = [] then ascii "nothing" else trusted) ++ ascii "]" }
  | sig :: sigs =>
    match sig.keyId with
    | none => checkSignatures keys spec offered sigs
    | some keyId =>
      match keys.lookup keyId with
      | none => checkSignatures keys spec (listed offered keyId) sigs
      | some key => judge ed25519 spec sig keyId key

def verifySigner (keys : TrustedKeys) (spec : SignedSpec) : SignatureCheck :=
  if spec.signatures = [] then { reason := ascii "the spec carries no signatures" }
  else checkSignatures ed25519 keys spec [] spec.signatures

end Gate

/-! ## The row -/

def epochOf (spec : SignedSpec) : Bytes :=
  if spec.targetEpoch = [] then ascii "default" else spec.targetEpoch

/-- The row is of the same epoch and digest. -/
def MigrationRow.isOf (spec : SignedSpec) (row : MigrationRow) : Bool :=
  row.epoch == epochOf spec && row.specDigest == spec.digest

/-- `spec.signatures[0].value("signature", "")`, asked of a specification that has signatures. -/
def firstText (spec : SignedSpec) : Except Bytes Bytes :=
  match spec.signatures with
  | [] => .error []
  | sig :: _ => sig.value

/-- The row made of a signature the database could read. -/
def rowOf (spec : SignedSpec) (signerKeyId signature : Bytes) : MigrationRow where
  specId := spec.id
  specDigest := spec.digest
  epoch := epochOf spec
  canonicalBytes := spec.canonicalBytes
  signerKeyId := signerKeyId
  signature := signature

/-- `record_migration`. `decode` is the database's own `decode(.., 'base64')` and `epochs` are the
rows of `laswell.epoch`; what the database refuses leaves no row. -/
def recordMigration (decode : Bytes → Option Bytes) (epochs : List Bytes) (keys : TrustedKeys)
    (spec : SignedSpec) (signerKeyId : Bytes) (rows : List MigrationRow) :
    Except Bytes (MigrationRow × List MigrationRow) :=
  match firstText spec with
  | .error what => .error what
  | .ok text =>
    match decode text with
    | none => .error (ascii "invalid base64 data")
    | some signature =>
      match rows.find? (MigrationRow.isOf spec) with
      | some old =>
        -- ON CONFLICT (epoch, spec_digest) DO UPDATE SET spec_id = EXCLUDED.spec_id
        .ok ({ old with specId := spec.id },
          rows.map fun row => if row.isOf spec then { row with specId := spec.id } else row)
      | none =>
        if epochOf spec ∈ epochs ∧ (keys.lookup signerKeyId).isSome then
          .ok (rowOf spec signerKeyId signature, rows ++ [rowOf spec signerKeyId signature])
        else .error (ascii "violates foreign key constraint")

/-! ## What a row should be -/

section Faithful

variable (ed25519 : Bytes → Bytes → Bytes → Bool) (keys : TrustedKeys)

/-- The row's signature is one of its signer over its bytes. -/
def MigrationRow.Verifies (row : MigrationRow) : Prop :=
  ∃ key, keys.lookup row.signerKeyId = some key ∧
    verifyEd25519 ed25519 key.publicKey row.canonicalBytes row.signature = true

/-- The entry names a key that the database holds. -/
def Signature.names (sig : Signature) : Bool :=
  (sig.keyId.bind keys.lookup).isSome

/-- The entry that decides: the first that names such a key. -/
def decisive (spec : SignedSpec) : Option Signature := spec.signatures.find? (·.names keys)

/-- The row of the specification verifies; and one that was not there before has the key and the
signature of the entry that was verified. -/
structure Faithful (spec : SignedSpec) (rows : List MigrationRow) (row : MigrationRow) : Prop where
  verifies : row.Verifies ed25519 keys
  verified : rows.find? (MigrationRow.isOf spec) = none →
    ∃ sig, decisive keys spec = some sig ∧ sig.keyId = some row.signerKeyId ∧
      sig.raw = .ok row.signature

end Faithful

/-! ## When the row is that -/

section Condition

variable (decode : Bytes → Option Bytes) (epochs : List Bytes) (keys : TrustedKeys)
  (spec : SignedSpec)

/-- The two readings of one text as base64, where both read it, are the same. -/
def Agree (text : Bytes) : Prop :=
  ∀ stored raw, decode text = some stored → base64Decode text = .ok raw → stored = raw

/-- The first entry is an object whose signature is text that the database decodes. -/
def Readable (first : Signature) : Prop :=
  ∃ text stored, first.value = .ok text ∧ decode text = some stored

/-- The database decodes the text of the first entry to the bytes of another's signature. -/
def SameBytes (first other : Signature) : Prop :=
  ∃ text raw, first.value = .ok text ∧ other.raw = .ok raw ∧ decode text = some raw

/-- The first entry names a trusted key, so that it decides, and both decoders read it alike; or
it does not, and repeats the signature of the one that decides. -/
def Selects (first other : Signature) : Prop :=
  (first.names keys = true ∧ ∀ text, first.value = .ok text → Agree decode text) ∨
    (first.names keys = false ∧ SameBytes decode first other)

/-- What there is to meet, where the first entry can be read: a row that is there already
verifies, and for a new one, of an epoch the database has, the first entry is the one to take. -/
def Meets (ed25519 : Bytes → Bytes → Bytes → Bool) (rows : List MigrationRow) : Prop :=
  ∀ first other, spec.signatures.head? = some first → decisive keys spec = some other →
    Readable decode first →
    match rows.find? (MigrationRow.isOf spec) with
    | some old => old.Verifies ed25519 keys
    | none => epochOf spec ∈ epochs → Selects decode keys first other

end Condition

/-! ## Which entry is verified -/

section Verified

variable {ed25519 : Bytes → Bytes → Bytes → Bool} {keys : TrustedKeys} {spec : SignedSpec}
  {check : SignatureCheck}

/-- The check accepted the specification by this entry. -/
structure AcceptedBy (ed25519 : Bytes → Bytes → Bytes → Bool) (keys : TrustedKeys)
    (spec : SignedSpec) (sig : Signature) (raw : Bytes) (check : SignatureCheck) : Prop where
  hid : sig.keyId = some check.keyId
  hraw : sig.raw = .ok raw
  hkey : ∃ key, keys.lookup check.keyId = some key ∧ key.revoked = false ∧
    verifyEd25519 ed25519 key.publicKey spec.canonicalBytes raw = true

theorem names_iff {sig : Signature} :
    sig.names keys = true ↔ ∃ keyId key, sig.keyId = some keyId ∧ keys.lookup keyId = some key := by
  unfold Signature.names
  cases sig.keyId with
  | none => simp
  | some keyId => simp [Option.isSome_iff_exists]

theorem judge_verified {sig : Signature} {keyId : Bytes} {key : TrustedKey}
    (hid : sig.keyId = some keyId) (hkey : keys.lookup keyId = some key)
    (h : (judge ed25519 spec sig keyId key).verified = true) :
    ∃ raw, AcceptedBy ed25519 keys spec sig raw (judge ed25519 spec sig keyId key) := by
  unfold judge at h ⊢
  split at h
  · cases h
  · rename_i hrevoked
    rw [if_neg hrevoked]
    split at h
    · cases h
    · rename_i raw hraw
      split at h
      · rename_i hv
        simp only [if_pos hv]
        exact ⟨raw, hid, hraw, key, hkey, by simpa using hrevoked, hv⟩
      · cases h

theorem checkSignatures_verified {sigs : List Signature} {offered : Bytes}
    (h : (checkSignatures ed25519 keys spec offered sigs).verified = true) :
    ∃ sig raw, sigs.find? (·.names keys) = some sig ∧
      AcceptedBy ed25519 keys spec sig raw (checkSignatures ed25519 keys spec offered sigs) := by
  induction sigs generalizing offered with
  | nil => cases h
  | cons sig sigs ih =>
    have hskip : sig.names keys = false →
        (sig :: sigs).find? (·.names keys) = sigs.find? (·.names keys) :=
      fun hn => List.find?_cons_of_neg (by simp [hn])
    rw [checkSignatures] at h ⊢
    cases hid : sig.keyId with
    | none =>
      rw [hid] at h
      rw [hskip (by simp [Signature.names, hid])]
      exact ih h
    | some keyId =>
      rw [hid] at h
      cases hkey : keys.lookup keyId with
      | none =>
        simp only [hkey] at h ⊢
        rw [hskip (by simp [Signature.names, hid, hkey])]
        exact ih h
      | some key =>
        simp only [hkey] at h ⊢
        have hn : sig.names keys = true := names_iff.mpr ⟨keyId, key, hid, hkey⟩
        obtain ⟨raw, hraw⟩ := judge_verified hid hkey h
        exact ⟨sig, raw, List.find?_cons_of_pos hn, hraw⟩

/-- An accepted specification was accepted by the first entry that names a key of the
database. -/
theorem verifySigner_verified (h : (verifySigner ed25519 keys spec).verified = true) :
    ∃ sig raw, decisive keys spec = some sig ∧
      AcceptedBy ed25519 keys spec sig raw (verifySigner ed25519 keys spec) := by
  unfold verifySigner at h ⊢
  split at h
  · cases h
  · rename_i hne
    rw [if_neg hne]
    exact checkSignatures_verified h

end Verified

/-! ## What is recorded -/

section Recorded

variable {ed25519 : Bytes → Bytes → Bytes → Bool} {decode : Bytes → Option Bytes}
  {epochs : List Bytes} {keys : TrustedKeys} {spec : SignedSpec} {signerKeyId : Bytes}
  {rows rows' : List MigrationRow} {row : MigrationRow}

theorem firstText_head {first : Signature} (h : spec.signatures.head? = some first) :
    firstText spec = first.value := by
  unfold firstText
  cases hs : spec.signatures with
  | nil => rw [hs] at h; cases h
  | cons sig sigs => rw [hs] at h; cases h; rfl

theorem recordMigration_readable {first : Signature} {text stored : Bytes}
    (hfirst : spec.signatures.head? = some first) (hv : first.value = .ok text)
    (hd : decode text = some stored) :
    recordMigration decode epochs keys spec signerKeyId rows =
      match rows.find? (MigrationRow.isOf spec) with
      | some old => .ok ({ old with specId := spec.id },
        rows.map fun row => if row.isOf spec then { row with specId := spec.id } else row)
      | none =>
        if epochOf spec ∈ epochs ∧ (keys.lookup signerKeyId).isSome then
          .ok (rowOf spec signerKeyId stored, rows ++ [rowOf spec signerKeyId stored])
        else .error (ascii "violates foreign key constraint") := by
  simp only [recordMigration, firstText_head hfirst, hv, hd]

/-- What the database took was readable. -/
theorem recordMigration_ok (h : recordMigration decode epochs keys spec signerKeyId rows =
    .ok (row, rows')) :
    ∃ first text stored, spec.signatures.head? = some first ∧ first.value = .ok text ∧
      decode text = some stored := by
  unfold recordMigration firstText at h
  cases hs : spec.signatures with
  | nil => simp only [hs] at h; cases h
  | cons first sigs =>
    simp only [hs] at h
    cases hv : first.value with
    | error what => simp only [hv] at h; cases h
    | ok text =>
      cases hd : decode text with
      | none => simp only [hv, hd] at h; cases h
      | some stored => exact ⟨first, text, stored, rfl, hv, hd⟩

/-- The entry that decides, when it is the first. -/
theorem decisive_first {first : Signature} (hfirst : spec.signatures.head? = some first)
    (hn : first.names keys = true) : decisive keys spec = some first := by
  unfold decisive
  cases hs : spec.signatures with
  | nil => rw [hs] at hfirst; cases hfirst
  | cons sig sigs =>
    rw [hs] at hfirst
    cases hfirst
    exact List.find?_cons_of_pos hn

theorem raw_ok {sig : Signature} {text raw : Bytes} (hv : sig.value = .ok text)
    (hraw : sig.raw = .ok raw) : base64Decode text = .ok raw := by
  unfold Signature.raw at hraw
  simp only [hv] at hraw
  cases hb : base64Decode text with
  | error e => rw [hb] at hraw; cases hraw
  | ok bytes => rw [hb] at hraw; cases hraw; rfl

/-- The first entry is the one to take exactly when its text is decoded to what was verified. -/
theorem selects_iff {first other : Signature} {text stored raw : Bytes}
    (hfirst : spec.signatures.head? = some first) (hother : decisive keys spec = some other)
    (hraw : other.raw = .ok raw) (hv : first.value = .ok text) (hd : decode text = some stored) :
    Selects decode keys first other ↔ stored = raw := by
  have hsame : SameBytes decode first other ↔ stored = raw := by
    constructor
    · rintro ⟨text', raw', hv', hraw', hd'⟩
      rw [hv] at hv'
      rw [hraw] at hraw'
      cases hv'
      cases hraw'
      rw [hd] at hd'
      exact Option.some.inj hd'
    · rintro rfl
      exact ⟨text, stored, hv, hraw, hd⟩
  unfold Selects
  rw [hsame]
  cases hn : first.names keys with
  | false => simp
  | true =>
    have heq : first = other := Option.some.inj ((decisive_first hfirst hn).symm.trans hother)
    subst heq
    simp only [true_and, Bool.true_eq_false, false_and, or_false]
    constructor
    · intro h
      exact h text hv stored raw hd (raw_ok hv hraw)
    · rintro rfl text' hv' stored' raw' hd' hb'
      rw [hv] at hv'
      cases hv'
      rw [hd] at hd'
      rw [raw_ok hv hraw] at hb'
      cases hd'
      cases hb'
      rfl

/-- The row of an accepted specification pairs a key with the signature that was verified under
it, exactly where the first of its signatures is the one to take. -/
theorem recordMigration_faithful_iff
    (haccepted : (verifySigner ed25519 keys spec).verified = true) :
    (∀ row rows', recordMigration decode epochs keys spec (verifySigner ed25519 keys spec).keyId
        rows = .ok (row, rows') → Faithful ed25519 keys spec rows row) ↔
      Meets decode epochs keys spec ed25519 rows := by
  obtain ⟨sig, raw, hsig, ⟨hid, hraw, key, hkey, _, hver⟩⟩ := verifySigner_verified haccepted
  constructor
  · rintro h first other hfirst hother ⟨text, stored, hv, hd⟩
    cases hsig.symm.trans hother
    have hrecord := @recordMigration_readable decode epochs keys spec
      (verifySigner ed25519 keys spec).keyId rows first text stored hfirst hv hd
    cases hold : rows.find? (MigrationRow.isOf spec) with
    | some old =>
      rw [hold] at hrecord
      exact (h _ _ hrecord).verifies
    | none =>
      intro hepoch
      rw [hold] at hrecord
      simp only [hepoch, hkey, Option.isSome_some, and_self, if_true] at hrecord
      obtain ⟨sig', hsig', -, hraw'⟩ := (h _ _ hrecord).verified hold
      rw [hsig] at hsig'
      cases hsig'
      rw [hraw] at hraw'
      exact (selects_iff hfirst hsig hraw hv hd).mpr (Except.ok.inj hraw').symm
  · intro h row rows' hrow
    obtain ⟨first, text, stored, hfirst, hv, hd⟩ := recordMigration_ok hrow
    have hmeets := h first sig hfirst hsig ⟨text, stored, hv, hd⟩
    rw [recordMigration_readable hfirst hv hd] at hrow
    cases hold : rows.find? (MigrationRow.isOf spec) with
    | some old =>
      rw [hold] at hmeets hrow
      cases hrow
      exact ⟨hmeets, fun hnone => absurd (hold.symm.trans hnone) (by simp)⟩
    | none =>
      rw [hold] at hmeets hrow
      dsimp only at hrow
      split at hrow
      · rename_i hforeign
        cases hrow
        have hstored : stored = raw := (selects_iff hfirst hsig hraw hv hd).mp (hmeets hforeign.1)
        subst hstored
        exact ⟨⟨key, hkey, hver⟩, fun _ => ⟨sig, hsig, hid, hraw⟩⟩
      · cases hrow

/-- One call after another: what is accepted is recorded. -/
def recordEach (ed25519 : Bytes → Bytes → Bytes → Bool) (decode : Bytes → Option Bytes)
    (epochs : List Bytes) (keys : TrustedKeys) (rows : List MigrationRow) :
    List SignedSpec → List MigrationRow
  | [] => rows
  | spec :: specs =>
    let check := verifySigner ed25519 keys spec
    if check.verified then
      match recordMigration decode epochs keys spec check.keyId rows with
      | .error _ => recordEach ed25519 decode epochs keys rows specs
      | .ok (_, rows') => recordEach ed25519 decode epochs keys rows' specs
    else recordEach ed25519 decode epochs keys rows specs

/-- A call keeps the rows there were, but for their name, and adds at most the one it answers. -/
theorem recordMigration_rows
    (h : recordMigration decode epochs keys spec signerKeyId rows = .ok (row, rows'))
    (hrow : row.Verifies ed25519 keys) (hrows : ∀ r ∈ rows, r.Verifies ed25519 keys) :
    ∀ r ∈ rows', r.Verifies ed25519 keys := by
  obtain ⟨first, text, stored, hfirst, hv, hd⟩ := recordMigration_ok h
  rw [recordMigration_readable hfirst hv hd] at h
  cases hold : rows.find? (MigrationRow.isOf spec) with
  | some old =>
    rw [hold] at h
    cases h
    intro r hr
    obtain ⟨r', hr', rfl⟩ := List.mem_map.mp hr
    split
    · exact hrows r' hr'
    · exact hrows r' hr'
  | none =>
    rw [hold] at h
    dsimp only at h
    split at h
    · cases h
      intro r hr
      rcases List.mem_append.mp hr with hr | hr
      · exact hrows r hr
      · rw [List.mem_singleton.mp hr]
        exact hrow
    · cases h

/-- Over any calls for such specifications every row verifies under its signer. -/
theorem recordEach_verifies {specs : List SignedSpec}
    (hspecs : ∀ spec ∈ specs, ∀ first other, spec.signatures.head? = some first →
      decisive keys spec = some other → Readable decode first → Selects decode keys first other)
    (hrows : ∀ r ∈ rows, r.Verifies ed25519 keys) :
    ∀ r ∈ recordEach ed25519 decode epochs keys rows specs, r.Verifies ed25519 keys := by
  induction specs generalizing rows with
  | nil => exact hrows
  | cons spec specs ih =>
    have hspec := hspecs spec List.mem_cons_self
    have hrest {rows : List MigrationRow} := @ih rows fun s hs =>
      hspecs s (List.mem_cons_of_mem _ hs)
    dsimp only [recordEach]
    split
    · rename_i haccepted
      split
      · exact hrest hrows
      · rename_i row rows' hrecord
        have hmeets : Meets decode epochs keys spec ed25519 rows := by
          intro first other hfirst hother hread
          split
          · rename_i old hold
            exact hrows old (List.mem_of_find?_eq_some hold)
          · exact fun _ => hspec first other hfirst hother hread
        have hrow := (recordMigration_faithful_iff haccepted).mpr hmeets row rows' hrecord
        exact hrest (recordMigration_rows hrecord hrow.verifies hrows)
    · exact hrest hrows

end Recorded

/-! ## Two signers -/

/-- A key of one database, and a verifier that takes one signature of it. -/
def someKeys : TrustedKeys where
  lookup id :=
    if id = ascii "ed25519:b" then some { publicKey := List.replicate 32 0, label := ascii "b" }
    else none
  ids := [ascii "ed25519:b"]

def signedBy (id : String) (signature : Bytes) : Signature :=
  .object (.text (ascii id)) (.text (base64Encode signature))

def someSpec (signatures : List Signature) : SignedSpec where
  id := ascii "0001"
  digest := ascii "d"
  canonicalBytes := ascii "\x7b\x7d"
  signatures := signatures

def someVerifier (_ _ signature : Bytes) : Bool := signature == List.replicate 64 7

theorem recordMigration_faithful_single :
    ∃ row, recordMigration (fun text => (base64Decode text).toOption) [ascii "default"]
        someKeys (someSpec [signedBy "ed25519:b" (List.replicate 64 7)])
        (verifySigner someVerifier someKeys
          (someSpec [signedBy "ed25519:b" (List.replicate 64 7)])).keyId [] = .ok (row, [row]) ∧
      Faithful someVerifier someKeys (someSpec [signedBy "ed25519:b" (List.replicate 64 7)])
        [] row := by
  have hrecord : recordMigration (fun text => (base64Decode text).toOption) [ascii "default"]
      someKeys (someSpec [signedBy "ed25519:b" (List.replicate 64 7)])
      (verifySigner someVerifier someKeys
        (someSpec [signedBy "ed25519:b" (List.replicate 64 7)])).keyId [] =
      .ok (rowOf (someSpec [signedBy "ed25519:b" (List.replicate 64 7)]) (ascii "ed25519:b")
        (List.replicate 64 7), [rowOf (someSpec [signedBy "ed25519:b" (List.replicate 64 7)])
        (ascii "ed25519:b") (List.replicate 64 7)]) := by
    decide +kernel
  refine ⟨_, hrecord, (recordMigration_faithful_iff (by decide +kernel)).mpr ?_ _ _ hrecord⟩
  intro first other hfirst hother _
  cases hfirst
  refine fun _ => .inl ⟨by decide +kernel, fun text _ stored raw hd hb => ?_⟩
  simp only [hb] at hd
  exact (Option.some.inj hd).symm

/-- The first signature is by a key this database does not hold: the second one is verified, and
the row pairs the second key with the first signature. -/
theorem recordMigration_other_signer :
    (verifySigner someVerifier someKeys (someSpec [signedBy "ed25519:a" (List.replicate 64 1),
      signedBy "ed25519:b" (List.replicate 64 7)])).verified = true ∧
    ∃ row, recordMigration (fun text => (base64Decode text).toOption) [ascii "default"] someKeys
        (someSpec [signedBy "ed25519:a" (List.replicate 64 1),
          signedBy "ed25519:b" (List.replicate 64 7)])
        (verifySigner someVerifier someKeys
          (someSpec [signedBy "ed25519:a" (List.replicate 64 1),
            signedBy "ed25519:b" (List.replicate 64 7)])).keyId [] = .ok (row, [row]) ∧
      row.signerKeyId = ascii "ed25519:b" ∧ row.signature = List.replicate 64 1 ∧
      ¬ row.Verifies someVerifier someKeys := by
  refine ⟨by decide +kernel, rowOf (someSpec [signedBy "ed25519:a" (List.replicate 64 1),
    signedBy "ed25519:b" (List.replicate 64 7)]) (ascii "ed25519:b") (List.replicate 64 1),
    by decide +kernel, rfl, rfl, ?_⟩
  rintro ⟨key, hkey, hver⟩
  have hself : someKeys.lookup (ascii "ed25519:b") =
      some { publicKey := List.replicate 32 0, label := ascii "b" } := by decide +kernel
  cases hself.symm.trans hkey
  exact absurd hver (by decide +kernel)

end Trust
end Laswell
