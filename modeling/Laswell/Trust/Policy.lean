import Laswell.Base.FirstDecisive
import Laswell.Trust.Signer

/-!
# Laswell.Trust.Policy

The first gate on a signature, `verify_against_policy`, beside the second, `verify_signer`.

Both gates go down the list of signatures past the keys they know nothing of, and the first entry
that is left decides, for or against.

* `checkAgainstPolicy_verified`, `checkSignatures_verified_iff`: the verdict of each gate.
* `gates_first_decides`: and when that does not depend on the order of the entries.
-/

namespace Laswell
namespace Trust

open Base Canonical

/-! ## The policy of this machine -/

/-- A `[key <id>]` section. The loader takes no key of another length. -/
structure LocalKey where
  publicKey : Bytes
  label : Bytes
  length : publicKey.length = 32

structure TrustPolicy where
  accept : List Bytes
  keys : Bytes → Option LocalKey

def TrustPolicy.configured (policy : TrustPolicy) : Bool := policy.accept ≠ []

def TrustPolicy.accepts (policy : TrustPolicy) (keyId : Bytes) : Bool :=
  policy.accept.any (· == keyId)

/-- An entry of `signatures` with its `algorithm`. -/
structure SignedEntry where
  sig : Signature
  algorithm : Field := .absent

structure PolicyCheck extends SignatureCheck where
  notConfigured : Bool := false

def hexDigit (n : Nat) : UInt8 := (ascii "0123456789abcdef").getD n 0

def toHex (bytes : Bytes) : Bytes :=
  bytes.flatMap fun b => [hexDigit ((b.toNat >>> 4) &&& 0xF), hexDigit (b.toNat &&& 0xF)]

/-! ## The gate -/

section Gate

variable (ed25519 : Bytes → Bytes → Bytes → Bool) (sha256 : Bytes → Bytes)

def keyIdFor (publicKey : Bytes) : Except Bytes Bytes :=
  if publicKey.length ≠ 32 then
    .error (ascii "ed25519: public key must be 32 bytes, got " ++
      ascii (toString publicKey.length))
  else .ok (ascii "ed25519:" ++ (toHex (sha256 publicKey)).take 16)

/-- `sig.value("algorithm", "ed25519")` -/
def SignedEntry.algorithmName (e : SignedEntry) : Except Bytes Bytes :=
  match e.algorithm with
  | .absent => .ok (ascii "ed25519")
  | .text s => .ok s
  | .other type =>
    .error (ascii "[json.exception.type_error.302] type must be string, but is " ++ type)

/-- What an entry decides when its key is accepted and this machine has it. -/
def judgeLocal (canonicalBytes : Bytes) (sig : Signature) (keyId : Bytes) (key : LocalKey) :
    Except Bytes PolicyCheck :=
  match keyIdFor sha256 key.publicKey with
  | .error what => .error what
  | .ok id =>
    if id ≠ keyId then
      .ok { reason := ascii "key " ++ keyId ++ ascii " does not match its own public key; the " ++
        ascii "config's key id is not the content address of the key bytes" }
    else
      match sig with
      | .object _ (.text signature) =>
        match base64Decode signature with
        | .error e =>
          .ok { reason := ascii "signature for " ++ keyId ++ ascii " is not base64: " ++ e.what }
        | .ok raw =>
          if verifyEd25519 ed25519 key.publicKey canonicalBytes raw then
            .ok { verified := true, keyId := keyId, label := key.label }
          else
            .ok { reason := ascii "signature by " ++ keyId ++
              ascii " does not verify over the canonical bytes" }
      | _ =>
        .ok { reason := ascii "signature entry for " ++ keyId ++ ascii " has no signature value" }

def checkAgainstPolicy (policy : TrustPolicy) (canonicalBytes tried : Bytes) :
    List SignedEntry → Except Bytes PolicyCheck
  | [] =>
    let accepted := policy.accept.foldl listed []
    .ok { reason := ascii "the spec is signed by [" ++ tried ++
      ascii "], and this machine accepts [" ++
      (if accepted = [] then ascii "nothing" else accepted) ++ ascii "]" }
  | e :: es =>
    match e.sig.keyId with
    | none => .ok { reason := ascii "a signature entry has no key_id" }
    | some keyId =>
      match e.algorithmName with
      | .error what => .error what
      | .ok algorithm =>
        if algorithm ≠ ascii "ed25519" then
          .ok { reason := ascii "unsupported signature algorithm \"" ++ algorithm ++
            ascii "\"; this build verifies ed25519 only" }
        else if !policy.accepts keyId then
          checkAgainstPolicy policy canonicalBytes (listed tried keyId) es
        else
          match policy.keys keyId with
          | none => checkAgainstPolicy policy canonicalBytes (listed tried keyId) es
          | some key => judgeLocal ed25519 sha256 canonicalBytes e.sig keyId key

def verifyAgainstPolicy (policy : TrustPolicy) (canonicalBytes : Bytes)
    (entries : List SignedEntry) : Except Bytes PolicyCheck :=
  if !policy.configured then
    .ok { notConfigured := true
          reason := ascii "no [trust] accept list is configured on this machine, so nothing is " ++
            ascii "checked locally; the target database decides" }
  else if entries = [] then .ok { reason := ascii "the spec carries no signatures" }
  else checkAgainstPolicy ed25519 sha256 policy canonicalBytes [] entries

end Gate

/-! ## Which entries count -/

section Entries

variable (ed25519 : Bytes → Bytes → Bytes → Bool) (sha256 : Bytes → Bytes)

/-- The entry is an object that names its key, and its algorithm, if it has one, is a text. -/
def SignedEntry.WellFormed (e : SignedEntry) : Prop :=
  e.sig.keyId ≠ none ∧ ∃ name, e.algorithmName = .ok name

/-- The first gate does not go past the entry: its algorithm is another one, or it names a key that
is accepted and present. -/
def TrustPolicy.Decides (policy : TrustPolicy) (e : SignedEntry) : Prop :=
  (∃ name, e.algorithmName = .ok name ∧ name ≠ ascii "ed25519") ∨
    ∃ keyId key, e.sig.keyId = some keyId ∧ policy.accepts keyId = true ∧
      policy.keys keyId = some key

/-- The entry names an accepted key, which is what its id says, and its signature verifies. -/
def TrustPolicy.Vouches (policy : TrustPolicy) (canonicalBytes : Bytes) (e : SignedEntry) : Prop :=
  e.algorithmName = .ok (ascii "ed25519") ∧
    ∃ keyId key signature raw, e.sig = .object (.text keyId) (.text signature) ∧
      policy.accepts keyId = true ∧ policy.keys keyId = some key ∧
      keyIdFor sha256 key.publicKey = .ok keyId ∧ base64Decode signature = .ok raw ∧
      verifyEd25519 ed25519 key.publicKey canonicalBytes raw = true

/-- The second gate does not go past the entry: it names a key that the database holds. -/
def TrustedKeys.Decides (keys : TrustedKeys) (sig : Signature) : Prop := sig.names keys = true

/-- The entry names a key of the database that is not revoked, and its signature verifies. -/
def TrustedKeys.Vouches (keys : TrustedKeys) (canonicalBytes : Bytes) (sig : Signature) : Prop :=
  ∃ keyId key raw, sig.keyId = some keyId ∧ keys.lookup keyId = some key ∧
    key.revoked = false ∧ sig.raw = .ok raw ∧
    verifyEd25519 ed25519 key.publicKey canonicalBytes raw = true

/-- The check came to an end, and with this verdict. -/
def verdict (outcome : Except Bytes PolicyCheck) : Bool := outcome.toOption.any (·.verified)

def VerifiedByPolicy (policy : TrustPolicy) (canonicalBytes : Bytes)
    (entries : List SignedEntry) : Prop :=
  verdict (verifyAgainstPolicy ed25519 sha256 policy canonicalBytes entries) = true

def VerifiedByDatabase (keys : TrustedKeys) (spec : SignedSpec) (sigs : List Signature) : Prop :=
  (verifySigner ed25519 keys { spec with signatures := sigs }).verified = true

end Entries

/-! ## The verdicts -/

section Verdicts

variable {ed25519 : Bytes → Bytes → Bytes → Bool} {sha256 : Bytes → Bytes}

theorem Signature.keyId_some {sig : Signature} {keyId : Bytes} (h : sig.keyId = some keyId) :
    ∃ signature, sig = .object (.text keyId) signature := by
  unfold Signature.keyId at h
  split at h
  · cases h
    exact ⟨_, rfl⟩
  · cases h

theorem verdict_iff {outcome : Except Bytes PolicyCheck} :
    verdict outcome = true ↔ ∃ check, outcome = .ok check ∧ check.verified = true := by
  cases outcome with
  | error what => simp [verdict, Except.toOption]
  | ok check => simp [verdict, Except.toOption]

theorem judgeLocal_verified {policy : TrustPolicy} {canonicalBytes keyId : Bytes}
    {e : SignedEntry} {key : LocalKey} (hid : e.sig.keyId = some keyId)
    (halg : e.algorithmName = .ok (ascii "ed25519")) (hacc : policy.accepts keyId = true)
    (hkey : policy.keys keyId = some key) :
    verdict (judgeLocal ed25519 sha256 canonicalBytes e.sig keyId key) = true ↔
      policy.Vouches ed25519 sha256 canonicalBytes e := by
  rw [verdict_iff]
  obtain ⟨field, hsig⟩ := Signature.keyId_some hid
  unfold judgeLocal
  constructor
  · rintro ⟨check, hcheck, hver⟩
    split at hcheck
    · cases hcheck
    · rename_i id hself
      split at hcheck
      · cases hcheck
        cases hver
      · rename_i hsame
        split at hcheck
        · rename_i keyField signature hobject
          split at hcheck
          · cases hcheck
            cases hver
          · rename_i raw hraw
            split at hcheck
            · rename_i hv
              refine ⟨halg, keyId, key, signature, raw, ?_, hacc, hkey, ?_, hraw, hv⟩
              · rw [hsig] at hobject ⊢
                cases hobject
                rfl
              · rw [hself, not_not.1 hsame]
            · cases hcheck
              cases hver
        · cases hcheck
          cases hver
  · rintro ⟨-, keyId', key', signature, raw, hobject, -, hkey', hself, hraw, hv⟩
    have hkeyId : keyId' = keyId := by
      rw [hobject] at hid
      exact Option.some.inj hid
    subst hkeyId
    cases hkey.symm.trans hkey'
    rw [hself, hobject]
    simp only [ne_eq, not_true_eq_false, ↓reduceIte, hraw, hv]
    exact ⟨_, rfl, rfl⟩

theorem TrustPolicy.Vouches.decides {policy : TrustPolicy} {canonicalBytes : Bytes}
    {e : SignedEntry} (h : policy.Vouches ed25519 sha256 canonicalBytes e) : policy.Decides e := by
  obtain ⟨_, keyId, key, signature, raw, hsig, hacc, hkey, _⟩ := h
  exact .inr ⟨keyId, key, by rw [hsig]; rfl, hacc, hkey⟩

/-- The first gate over entries it can read. -/
theorem checkAgainstPolicy_verified {policy : TrustPolicy} {canonicalBytes : Bytes} :
    ∀ (entries : List SignedEntry) (tried : Bytes), (∀ e ∈ entries, e.WellFormed) →
      (verdict (checkAgainstPolicy ed25519 sha256 policy canonicalBytes tried entries) = true ↔
        FirstIs policy.Decides (policy.Vouches ed25519 sha256 canonicalBytes) entries) := by
  intro entries
  induction entries with
  | nil =>
    intro tried _
    simp [checkAgainstPolicy, verdict, Except.toOption, FirstIs]
  | cons e es ih =>
    intro tried hwf
    obtain ⟨hkeyId, name, halg⟩ := hwf e List.mem_cons_self
    have hrest := fun tried' => ih tried' fun e' he' => hwf e' (List.mem_cons_of_mem _ he')
    rw [checkAgainstPolicy]
    cases hid : e.sig.keyId with
    | none => exact absurd hid hkeyId
    | some keyId =>
      simp only [halg]
      by_cases hname : name = ascii "ed25519"
      · rw [if_neg (not_not.2 hname)]
        rw [hname] at halg
        -- the algorithm is the supported one, so an entry decides by its key only
        have hdecides : policy.Decides e ↔
            policy.accepts keyId = true ∧ ∃ key, policy.keys keyId = some key := by
          constructor
          · rintro (⟨name', hother, hne⟩ | ⟨keyId', key, hid', hacc, hkey⟩)
            · rw [halg] at hother
              cases hother
              exact absurd rfl hne
            · cases hid.symm.trans hid'
              exact ⟨hacc, key, hkey⟩
          · rintro ⟨hacc, key, hkey⟩
            exact .inr ⟨keyId, key, hid, hacc, hkey⟩
        by_cases hacc : policy.accepts keyId = true
        · rw [if_neg (by simp [hacc])]
          cases hkey : policy.keys keyId with
          | none =>
            rw [firstIs_cons_of_not (by simp [hdecides, hkey])]
            exact hrest _
          | some key =>
            rw [firstIs_cons_of_decides (hdecides.2 ⟨hacc, key, hkey⟩)]
            exact judgeLocal_verified hid halg hacc hkey
        · rw [if_pos (by simp [hacc]), firstIs_cons_of_not (by simp [hdecides, hacc])]
          exact hrest _
      · rw [if_pos hname, firstIs_cons_of_decides (.inl ⟨name, halg, hname⟩)]
        refine iff_of_false (by simp [verdict, Except.toOption]) fun h => ?_
        rw [h.1] at halg
        cases halg
        exact hname rfl

theorem verifyAgainstPolicy_verified {policy : TrustPolicy} {canonicalBytes : Bytes}
    {entries : List SignedEntry} (hwf : ∀ e ∈ entries, e.WellFormed) :
    VerifiedByPolicy ed25519 sha256 policy canonicalBytes entries ↔
      FirstIs policy.Decides (policy.Vouches ed25519 sha256 canonicalBytes) entries := by
  unfold VerifiedByPolicy verifyAgainstPolicy
  split
  · rename_i hconf
    refine iff_of_false (by simp [verdict, Except.toOption]) fun h => ?_
    obtain ⟨e, _, _, _, keyId, _, _, _, _, hacc, _⟩ := h.exists
    simp only [TrustPolicy.configured, ne_eq, Bool.not_eq_true', decide_eq_false_iff_not,
      not_not] at hconf
    simp [TrustPolicy.accepts, hconf] at hacc
  · split
    · rename_i hnil
      simp [hnil, verdict, Except.toOption, FirstIs]
    · exact checkAgainstPolicy_verified entries [] hwf

theorem judge_verified_iff {keys : TrustedKeys} {spec : SignedSpec} {sig : Signature}
    {keyId : Bytes} {key : TrustedKey} (hid : sig.keyId = some keyId)
    (hkey : keys.lookup keyId = some key) :
    (judge ed25519 spec sig keyId key).verified = true ↔
      keys.Vouches ed25519 spec.canonicalBytes sig := by
  constructor
  · intro h
    obtain ⟨raw, hid', hraw, key', hkey', hrevoked, hver⟩ := judge_verified hid hkey h
    exact ⟨_, key', raw, hid', hkey', hrevoked, hraw, hver⟩
  · rintro ⟨keyId', key', raw, hid', hkey', hrevoked, hraw, hver⟩
    cases hid.symm.trans hid'
    cases hkey.symm.trans hkey'
    simp [judge, hrevoked, hraw, hver]

/-- The second gate over any entries. -/
theorem checkSignatures_verified_iff {keys : TrustedKeys} {spec : SignedSpec} :
    ∀ (sigs : List Signature) (offered : Bytes),
      (checkSignatures ed25519 keys spec offered sigs).verified = true ↔
        FirstIs keys.Decides (keys.Vouches ed25519 spec.canonicalBytes) sigs := by
  intro sigs
  induction sigs with
  | nil =>
    intro offered
    simp [checkSignatures, FirstIs]
  | cons sig sigs ih =>
    intro offered
    rw [checkSignatures]
    cases hid : sig.keyId with
    | none =>
      rw [firstIs_cons_of_not (by simp [TrustedKeys.Decides, Signature.names, hid])]
      exact ih _
    | some keyId =>
      cases hkey : keys.lookup keyId with
      | none =>
        simp only [hkey]
        rw [firstIs_cons_of_not (by simp [TrustedKeys.Decides, Signature.names, hid, hkey])]
        exact ih _
      | some key =>
        simp only [hkey]
        have hdecides : keys.Decides sig := names_iff.2 ⟨keyId, key, hid, hkey⟩
        rw [firstIs_cons_of_decides hdecides]
        exact judge_verified_iff hid hkey

theorem verifySigner_verified_iff {keys : TrustedKeys} {spec : SignedSpec}
    {sigs : List Signature} : VerifiedByDatabase ed25519 keys spec sigs ↔
      FirstIs keys.Decides (keys.Vouches ed25519 spec.canonicalBytes) sigs := by
  unfold VerifiedByDatabase verifySigner
  split
  · rename_i hnil
    have hsigs : sigs = [] := hnil
    simp [hsigs, FirstIs]
  · have hchecked := @checkSignatures_verified_iff ed25519 keys { spec with signatures := sigs }
    exact hchecked sigs []

theorem TrustedKeys.Vouches.decides {keys : TrustedKeys} {canonicalBytes : Bytes} {sig : Signature}
    (h : keys.Vouches ed25519 canonicalBytes sig) : keys.Decides sig := by
  obtain ⟨keyId, key, _, hid, hkey, _⟩ := h
  exact names_iff.2 ⟨keyId, key, hid, hkey⟩

end Verdicts

/-- Each gate answers for the first entry that decides; and in every order alike exactly when no
entry vouches for the specification, or each that decides does. -/
theorem gates_first_decides (ed25519 : Bytes → Bytes → Bytes → Bool) (sha256 : Bytes → Bytes)
    (policy : TrustPolicy) (keys : TrustedKeys) (spec : SignedSpec) (entries : List SignedEntry)
    (sigs : List Signature) (hwf : ∀ e ∈ entries, e.WellFormed) :
    ((VerifiedByPolicy ed25519 sha256 policy spec.canonicalBytes entries ↔
        FirstIs policy.Decides (policy.Vouches ed25519 sha256 spec.canonicalBytes) entries) ∧
      (OrderFree (VerifiedByPolicy ed25519 sha256 policy spec.canonicalBytes) entries ↔
        (∀ e ∈ entries, ¬ policy.Vouches ed25519 sha256 spec.canonicalBytes e) ∨
          ∀ e ∈ entries, policy.Decides e →
            policy.Vouches ed25519 sha256 spec.canonicalBytes e)) ∧
    (VerifiedByDatabase ed25519 keys spec sigs ↔
        FirstIs keys.Decides (keys.Vouches ed25519 spec.canonicalBytes) sigs) ∧
      (OrderFree (VerifiedByDatabase ed25519 keys spec) sigs ↔
        (∀ sig ∈ sigs, ¬ keys.Vouches ed25519 spec.canonicalBytes sig) ∨
          ∀ sig ∈ sigs, keys.Decides sig →
            keys.Vouches ed25519 spec.canonicalBytes sig) := by
  refine ⟨⟨verifyAgainstPolicy_verified hwf, ?_⟩, verifySigner_verified_iff, ?_⟩
  · have hfree : OrderFree (VerifiedByPolicy ed25519 sha256 policy spec.canonicalBytes) entries ↔
        OrderFree (FirstIs policy.Decides
          (policy.Vouches ed25519 sha256 spec.canonicalBytes)) entries := by
      refine forall_congr' fun l' => forall_congr' fun hperm => ?_
      rw [verifyAgainstPolicy_verified hwf,
        verifyAgainstPolicy_verified fun e he => hwf e (hperm.mem_iff.1 he)]
    rw [hfree, orderFree_iff]
    refine or_congr_left (forall_congr' fun e => forall_congr' fun _ => ?_)
    exact ⟨fun h hv => h hv.decides hv, fun h _ => h⟩
  · have hfree : OrderFree (VerifiedByDatabase ed25519 keys spec) sigs ↔
        OrderFree (FirstIs keys.Decides
          (keys.Vouches ed25519 spec.canonicalBytes)) sigs := by
      refine forall_congr' fun l' => forall_congr' fun _ => ?_
      rw [verifySigner_verified_iff, verifySigner_verified_iff]
    rw [hfree, orderFree_iff]
    refine or_congr_left (forall_congr' fun sig => forall_congr' fun _ => ?_)
    exact ⟨fun h hv => h hv.decides hv, fun h _ => h⟩

/-! ## Two signatures by one key -/

def zeroId : String := "ed25519:0000000000000000"

theorem zeroKey_length : (List.replicate 32 (0 : UInt8)).length = 32 := by decide

def zeroPolicy : TrustPolicy where
  accept := [ascii zeroId]
  keys id :=
    if id = ascii zeroId then
      some { publicKey := List.replicate 32 0, label := ascii "b", length := zeroKey_length }
    else none

def zeroKeys : TrustedKeys where
  lookup id :=
    if id = ascii zeroId then some { publicKey := List.replicate 32 0, label := ascii "b" }
    else none
  ids := [ascii zeroId]

def zeroHash (_ : Bytes) : Bytes := List.replicate 32 0

def spoiled : Signature := signedBy zeroId (List.replicate 64 1)

def genuine : Signature := signedBy zeroId (List.replicate 64 7)

theorem genuine_first_decides :
    OrderFree (VerifiedByPolicy someVerifier zeroHash zeroPolicy (ascii "\x7b\x7d"))
      [⟨genuine, .absent⟩] := by
  have hwf : ∀ e ∈ [SignedEntry.mk genuine .absent], e.WellFormed := by
    intro e he
    rw [List.mem_singleton.1 he]
    exact ⟨by decide +kernel, ascii "ed25519", rfl⟩
  refine (gates_first_decides someVerifier zeroHash zeroPolicy zeroKeys (someSpec []) _ []
    hwf).1.2.2 (.inr fun e he _ => ?_)
  rw [List.mem_singleton.1 he]
  exact ⟨rfl, ascii zeroId, ⟨List.replicate 32 0, ascii "b", zeroKey_length⟩, _,
    List.replicate 64 7, rfl, by decide +kernel, by simp [zeroPolicy], by decide +kernel,
    by decide +kernel, by decide +kernel⟩

/-- Behind a signature that does not verify, one that does is not looked at, by neither gate. -/
theorem spoiled_first_refused :
    (¬ VerifiedByPolicy someVerifier zeroHash zeroPolicy (ascii "\x7b\x7d")
        [⟨spoiled, .absent⟩, ⟨genuine, .absent⟩] ∧
      VerifiedByPolicy someVerifier zeroHash zeroPolicy (ascii "\x7b\x7d")
        [⟨genuine, .absent⟩, ⟨spoiled, .absent⟩]) ∧
    ¬ VerifiedByDatabase someVerifier zeroKeys (someSpec []) [spoiled, genuine] ∧
      VerifiedByDatabase someVerifier zeroKeys (someSpec []) [genuine, spoiled] := by
  unfold VerifiedByPolicy VerifiedByDatabase
  decide +kernel

end Trust
end Laswell
