import TfmExtras.DelegatedAttest.Binding

/-! What a request for a key that fails leaves of the key that was handed out before, and of the
keys it made itself. -/

namespace DelegatedAttest
open MeasuredBoot

variable {κ Key : Type} {v : KeyView κ Key} {p : Platform κ} {s s' s'' : State κ}

/-! ## What the services are relied on for -/

/-- The call can change what is behind the key id. -/
def Call.Touches (id : Nat) (a : Answer) : Call → Prop
  | .destroyKey id' => id' = id
  | .keyDerivationOutputKey _ => a.keyId = some id
  | _ => False

/-- The keys of the crypto service, whatever calls fail. -/
structure KeyView.Lawful (v : KeyView κ Key) (services : Services κ) : Prop where
  frame : ∀ c st id, ¬ c.Touches id (services c st).1 →
    v.keyOf (services c st).2 id = v.keyOf st id
  null : ∀ st, v.keyOf st psaKeyIdNull = none
  destroyKey : ∀ st id, (services (.destroyKey id) st).1.status = psaSuccess →
    v.keyOf (services (.destroyKey id) st).2 id = none
  destroyKey_invalidHandle : ∀ st id,
    (services (.destroyKey id) st).1.status = psaErrorInvalidHandle → v.keyOf st id = none
  destroyKey_fails : ∀ st id, (services (.destroyKey id) st).1.status ≠ psaSuccess →
    v.keyOf (services (.destroyKey id) st).2 id = v.keyOf st id ∨
      v.keyOf (services (.destroyKey id) st).2 id = none
  outputKey : ∀ st attributes,
    (services (.keyDerivationOutputKey attributes) st).1.status = psaSuccess →
    ∃ id k, (services (.keyDerivationOutputKey attributes) st).1.keyId = some id ∧
      v.keyOf (services (.keyDerivationOutputKey attributes) st).2 id = some k
  outputKey_fails : ∀ st attributes,
    (services (.keyDerivationOutputKey attributes) st).1.status ≠ psaSuccess →
    (services (.keyDerivationOutputKey attributes) st).1.keyId = none ∨
      (services (.keyDerivationOutputKey attributes) st).1.keyId = some psaKeyIdNull
  exportKey : ∀ st id size, (services (.exportKey id size) st).1.status = psaSuccess →
    ∃ k, v.keyOf st id = some k ∧ (services (.exportKey id size) st).1.data = v.exported k
  exportPublicKey : ∀ st id size, (services (.exportPublicKey id size) st).1.status = psaSuccess →
    ∃ k, v.keyOf st id = some k

/-- The calls that release what a request holds succeed. -/
structure KeyView.CleansUp (v : KeyView κ Key) (services : Services κ) : Prop where
  destroyKey : ∀ st id k, v.keyOf st id = some k →
    (services (.destroyKey id) st).1.status = psaSuccess
  abort : ∀ st attributes id size st',
    (services (.keyDerivationOutputKey attributes) st).1.status = psaSuccess →
    (services (.keyDerivationOutputKey attributes) st).1.keyId = some id →
    st' = (services (.keyDerivationOutputKey attributes) st).2 →
    (services (.exportKey id size) st').1.status = psaSuccess →
    (services .keyDerivationAbort (services (.exportKey id size) st').2).1.status = psaSuccess

/-- The calls of a request for a token depend on nothing but the key behind the id. -/
structure KeyView.TokenCalls (v : KeyView κ Key) (services : Services κ) : Prop where
  exportPublicKey : ∀ st st' id size, v.keyOf st id = v.keyOf st' id →
    (services (.exportPublicKey id size) st).1 = (services (.exportPublicKey id size) st').1
  hashCompare : ∀ st st' alg input hash,
    (services (.hashCompare alg input hash) st).1.status =
      (services (.hashCompare alg input hash) st').1.status
  initialAttestGetToken : ∀ st st' authChallenge size,
    (services (.initialAttestGetToken authChallenge size) st).1.status =
      (services (.initialAttestGetToken authChallenge size) st').1.status

/-! ## Tokens -/

theorem verifyDakPubHash_status (ht : v.TokenCalls p.services) (h : List UInt8)
    (hid : s'.dakKeyId = s.dakKeyId) (ha : s'.dakPubHashAlgo = s.dakPubHashAlgo)
    (hk : v.keyOf s'.services s.dakKeyId = v.keyOf s.services s.dakKeyId) :
    (verifyDakPubHash p h s').1 = (verifyDakPubHash p h s).1 := by
  have hx := ht.exportPublicKey s'.services s.services s.dakKeyId
    (psaKeyExportEccPublicKeyMaxSize 521) hk
  unfold verifyDakPubHash State.call
  dsimp only
  rw [hid, ha, hx]
  generalize p.services (.exportPublicKey s.dakKeyId (psaKeyExportEccPublicKeyMaxSize 521))
    s'.services = x' at hx ⊢
  generalize p.services (.exportPublicKey s.dakKeyId (psaKeyExportEccPublicKeyMaxSize 521))
    s.services = x
  rw [ht.hashCompare x'.2 x.2]
  split_ifs <;> rfl

/-- A request for a token ends alike in two states with the same key and the same flags. -/
theorem token_status (ht : v.TokenCalls p.services) (h : List UInt8) (size : Nat)
    (hr : s'.dakRequested = s.dakRequested) (hid : s'.dakKeyId = s.dakKeyId)
    (ha : s'.dakPubHashAlgo = s.dakPubHashAlgo)
    (hk : v.keyOf s'.services s.dakKeyId = v.keyOf s.services s.dakKeyId) :
    (delegatedAttestGetPlatformToken p h size s').1 =
      (delegatedAttestGetPlatformToken p h size s).1 := by
  have hverify := verifyDakPubHash_status ht h hid ha hk
  unfold delegatedAttestGetPlatformToken State.call
  dsimp only
  rw [hr, hverify, ht.initialAttestGetToken (verifyDakPubHash p h s').2.services
    (verifyDakPubHash p h s).2.services]
  split_ifs <;> rfl

/-- No key, no token. -/
theorem token_fails (hv : v.Lawful p.services) (h : List UInt8) (size : Nat)
    (hk : v.keyOf s.services s.dakKeyId = none) :
    (delegatedAttestGetPlatformToken p h size s).1 ≠ psaSuccess := by
  have hx : (p.services (.exportPublicKey s.dakKeyId (psaKeyExportEccPublicKeyMaxSize 521))
      s.services).1.status ≠ psaSuccess := fun hx => by
    obtain ⟨k, hk'⟩ := hv.exportPublicKey _ _ _ hx
    exact absurd (hk.symm.trans hk') nofun
  have hverify : (verifyDakPubHash p h s).1 ≠ psaSuccess := by
    unfold verifyDakPubHash State.call
    dsimp only
    split_ifs
    · exact invalidArgument_ne
    · exact genericError_ne
  unfold delegatedAttestGetPlatformToken
  dsimp only
  rw [if_pos hverify]
  split_ifs
  · exact invalidArgument_ne
  · exact hverify

/-! ## Keys -/

def Call.MakesKey : Call → Prop
  | .keyDerivationOutputKey _ => True
  | _ => False

/-- Calls that make no key and leave the flags alone. -/
structure Sheds (v : KeyView κ Key) (s s' : State κ) : Prop where
  live : ∀ id k, v.keyOf s'.services id = some k → v.keyOf s.services id = some k
  dakRequested : s'.dakRequested = s.dakRequested
  dakPubHashAlgo : s'.dakPubHashAlgo = s.dakPubHashAlgo

theorem Sheds.refl (v : KeyView κ Key) (s : State κ) : Sheds v s s := ⟨fun _ _ h => h, rfl, rfl⟩

theorem Sheds.trans (h : Sheds v s s') (h' : Sheds v s' s'') : Sheds v s s'' :=
  ⟨fun id k hk => h.live id k (h'.live id k hk), h'.dakRequested.trans h.dakRequested,
    h'.dakPubHashAlgo.trans h.dakPubHashAlgo⟩

/-- A key that is gone stays gone. -/
theorem Sheds.gone (h : Sheds v s s') {id : Nat} (hk : v.keyOf s.services id = none) :
    v.keyOf s'.services id = none := by
  cases hk' : v.keyOf s'.services id with
  | none => rfl
  | some k => exact absurd (hk.symm.trans (h.live id k hk')) nofun

theorem sheds_call (hv : v.Lawful p.services) (s : State κ) {c : Call}
    (hc : ¬ c.MakesKey) : Sheds v s (s.call p c).2 := by
  refine ⟨fun id k hk => ?_, rfl, rfl⟩
  by_cases ht : c.Touches id (p.services c s.services).1
  · cases c with
    | destroyKey id' =>
      obtain rfl : id' = id := ht
      by_cases hs : (p.services (.destroyKey id') s.services).1.status = psaSuccess
      · exact absurd ((hv.destroyKey _ _ hs).symm.trans hk) nofun
      · rcases hv.destroyKey_fails _ _ hs with h | h
        · exact h.symm.trans hk
        · exact absurd (h.symm.trans hk) nofun
    | keyDerivationOutputKey attributes => exact absurd trivial hc
    | _ => exact ht.elim
  · exact (hv.frame c s.services id ht).symm.trans hk

theorem destroyKey_gone (hv : v.Lawful p.services) (hc : v.CleansUp p.services) (s : State κ)
    (id : Nat) : v.keyOf (s.call p (.destroyKey id)).2.services id = none := by
  cases hk : v.keyOf s.services id with
  | none => exact (sheds_call hv s (c := .destroyKey id) not_false).gone hk
  | some k => exact hv.destroyKey _ _ (hc.destroyKey _ _ k hk)

theorem sheds_verifyDakPubHash (hv : v.Lawful p.services) (h : List UInt8) (s : State κ) :
    Sheds v s (verifyDakPubHash p h s).2 := by
  unfold verifyDakPubHash
  dsimp only
  split_ifs
  · exact .refl v s
  all_goals
    have h₁ := sheds_call hv s
      (c := .exportPublicKey s.dakKeyId (psaKeyExportEccPublicKeyMaxSize 521)) not_false
  · exact h₁
  all_goals exact h₁.trans (sheds_call hv _ (c := .hashCompare _ _ _) not_false)

theorem sheds_token (hv : v.Lawful p.services) (h : List UInt8) (size : Nat) (s : State κ) :
    Sheds v s (delegatedAttestGetPlatformToken p h size s).2.2 := by
  have h₁ := sheds_verifyDakPubHash hv h s
  unfold delegatedAttestGetPlatformToken
  dsimp only
  split_ifs
  · exact .refl v s
  · exact h₁
  all_goals exact h₁.trans (sheds_call hv _ (c := .initialAttestGetToken _ _) not_false)

/-- How the derivation of a key ends once the old key is gone. -/
inductive Derived (v : KeyView κ Key) (s : State κ) : PsaStatus × List UInt8 × State κ → Prop
  | fails {status : PsaStatus} {key : List UInt8} {s' : State κ} (hne : status ≠ psaSuccess)
      (hs : Sheds v s s') (hid : v.keyOf s'.services s'.dakKeyId = none) :
      Derived v s (status, key, s')
  | hands {s' : State κ} {k : Key}
      (hk : ∀ id k', v.keyOf s'.services id = some k' →
        v.keyOf s.services id = some k' ∨ id = s'.dakKeyId ∧ k' = k) :
      Derived v s (psaSuccess, v.exported k, s')

theorem Derived.of_sheds {r : PsaStatus × List UInt8 × State κ} (h : Sheds v s s')
    (hd : Derived v s' r) : Derived v s r := by
  cases hd with
  | fails hne hs hid => exact .fails hne (h.trans hs) hid
  | hands hk => exact .hands fun id k' hl => (hk id k' hl).imp_left (h.live id k')

theorem errReleaseOp_derived (hv : v.Lawful p.services) (hid : v.keyOf s.services s.dakKeyId = none) :
    Derived v s (errReleaseOp p s) :=
  have hs := sheds_call hv s (c := .keyDerivationAbort) not_false
  .fails genericError_ne hs (hs.gone hid)

theorem errReleaseKey_derived (hv : v.Lawful p.services) (hc : v.CleansUp p.services) :
    Derived v s (errReleaseKey p s) :=
  .of_sheds (sheds_call hv s (c := .destroyKey s.dakKeyId) not_false) (errReleaseOp_derived hv (destroyKey_gone hv hc s s.dakKeyId))

/-- The export of a key that is new at its id. -/
theorem exportDelegatedAttestationKey_derived {id : Nat} {k : Key} (hv : v.Lawful p.services)
    (hc : v.CleansUp p.services) (n : Nat) (hk : v.keyOf s'.services id = some k)
    (hnew : ∀ id' k', v.keyOf s'.services id' = some k' →
      v.keyOf s.services id' = some k' ∨ id' = id ∧ k' = k)
    (habort : (p.services (.exportKey id n) s'.services).1.status = psaSuccess →
      (p.services .keyDerivationAbort
        (p.services (.exportKey id n) s'.services).2).1.status = psaSuccess)
    (hr : s'.dakRequested = s.dakRequested) (ha : s'.dakPubHashAlgo = s.dakPubHashAlgo) :
    Derived v s (exportDelegatedAttestationKey p n { s' with dakKeyId := id }) := by
  have hs := sheds_call hv { s' with dakKeyId := id } (c := .exportKey id n) not_false
  unfold exportDelegatedAttestationKey
  dsimp only
  split_ifs with hx
  · have hd := sheds_call hv ({ s' with dakKeyId := id }.call p (.exportKey id n)).2
      (c := .destroyKey id) not_false
    have hgone := destroyKey_gone hv hc ({ s' with dakKeyId := id }.call p (.exportKey id n)).2 id
    have hdestroyed : Sheds v s (({ s' with dakKeyId := id }.call p (.exportKey id n)).2.call p
        (.destroyKey id)).2 := by
      refine ⟨fun id' k' hk' => ?_, hr, ha⟩
      rcases hnew id' k' ((hs.trans hd).live id' k' hk') with h | ⟨hi, -⟩
      · exact h
      · rw [hi] at hk'
        exact absurd (hgone.symm.trans hk') nofun
    exact .of_sheds hdestroyed (errReleaseOp_derived hv hgone)
  · have hx := not_not.mp hx
    obtain ⟨k', hk', hdata⟩ := hv.exportKey _ _ _ hx
    obtain rfl : k' = k := Option.some_inj.mp (hk'.symm.trans hk)
    have hb := sheds_call hv ({ s' with dakKeyId := id }.call p (.exportKey id n)).2
      (c := .keyDerivationAbort) not_false
    have hstatus := habort hx
    have hdata' : ({ s' with dakKeyId := id }.call p (.exportKey id n)).1.data = v.exported k' := hdata
    have hok : (({ s' with dakKeyId := id }.call p (.exportKey id n)).2.call p
      .keyDerivationAbort).1.status = psaSuccess := hstatus
    rw [hdata', hok]
    exact .hands fun id' k' hl => hnew id' k' ((hs.trans hb).live id' k' hl)

theorem outputDelegatedAttestationKey_derived (hv : v.Lawful p.services) (hc : v.CleansUp p.services)
    (c b n : Nat) (hid : v.keyOf s.services s.dakKeyId = none) :
    Derived v s (outputDelegatedAttestationKey p c b n s) := by
  have hf := hv.frame (.keyDerivationOutputKey ⟨c, b⟩) s.services
  unfold outputDelegatedAttestationKey
  dsimp only
  split_ifs with ho
  · -- no key: the id is still that of the old key, or null
    have hs : Sheds v s (s.call p (.keyDerivationOutputKey ⟨c, b⟩)).2 := by
      refine ⟨fun id k hk => ?_, rfl, rfl⟩
      by_cases ht : (p.services (.keyDerivationOutputKey ⟨c, b⟩) s.services).1.keyId = some id
      · rcases hv.outputKey_fails _ _ ho with he | he
        · exact absurd (he.symm.trans ht) nofun
        · obtain rfl := Option.some_inj.mp (he.symm.trans ht)
          exact absurd ((hv.null _).symm.trans hk) nofun
      · exact (hf id ht).symm.trans hk
    have hgone : v.keyOf (s.call p (.keyDerivationOutputKey ⟨c, b⟩)).2.services
        ((s.call p (.keyDerivationOutputKey ⟨c, b⟩)).1.keyId.getD s.dakKeyId) = none := by
      rcases hv.outputKey_fails _ _ ho with he | he
      · exact (congrArg (fun o : Option Nat => v.keyOf _ (o.getD s.dakKeyId)) he).trans (hs.gone hid)
      · exact (congrArg (fun o : Option Nat => v.keyOf _ (o.getD s.dakKeyId)) he).trans (hv.null _)
    have hs' : Sheds v s { (s.call p (.keyDerivationOutputKey ⟨c, b⟩)).2 with
        dakKeyId := (s.call p (.keyDerivationOutputKey ⟨c, b⟩)).1.keyId.getD s.dakKeyId } :=
      ⟨hs.1, hs.2, hs.3⟩
    exact .of_sheds hs' (errReleaseOp_derived hv hgone)
  · have ho := not_not.mp ho
    obtain ⟨id, k, he, hk⟩ := hv.outputKey _ _ ho
    have hget : (s.call p (.keyDerivationOutputKey ⟨c, b⟩)).1.keyId.getD
        (s.call p (.keyDerivationOutputKey ⟨c, b⟩)).2.dakKeyId = id :=
      congrArg (fun o : Option Nat => o.getD s.dakKeyId) he
    have hnew : ∀ id' k', v.keyOf (s.call p (.keyDerivationOutputKey ⟨c, b⟩)).2.services id' =
        some k' → v.keyOf s.services id' = some k' ∨ id' = id ∧ k' = k := fun id' k' hk' => by
      by_cases hi : id' = id
      · subst hi
        exact .inr ⟨rfl, Option.some_inj.mp (hk'.symm.trans hk)⟩
      · refine .inl ((hf id' fun ht => hi ?_).symm.trans hk')
        exact Option.some_inj.mp ((ht : _ = some id').symm.trans he)
    rw [hget]
    exact exportDelegatedAttestationKey_derived hv hc n hk hnew (hc.abort _ _ _ _ _ ho he rfl)
      rfl rfl

theorem deriveDelegatedAttestationKey_derived (hv : v.Lawful p.services)
    (hc : v.CleansUp p.services) (c b n : Nat) {salt : List UInt8} (hsalt : salt.length ≠ 0) :
    Derived v s (deriveDelegatedAttestationKey p c b salt n s) := by
  have h₀ := sheds_call hv s (c := .destroyKey s.dakKeyId) not_false
  have g₀ := destroyKey_gone hv hc s s.dakKeyId
  unfold deriveDelegatedAttestationKey
  dsimp only
  rw [if_neg hsalt]
  split_ifs with h1 h2 h3 h4
  · exact .fails h1.1 h₀ g₀
  all_goals
    have h₁ := sheds_call hv (s.call p (.destroyKey s.dakKeyId)).2
      (c := .keyDerivationSetup psaAlgHkdfSha256) not_false
    have g₁ := h₁.gone g₀
  · exact .fails h2 (h₀.trans h₁) g₁
  all_goals
    have h₂ := sheds_call hv ((s.call p (.destroyKey s.dakKeyId)).2.call p
      (.keyDerivationSetup psaAlgHkdfSha256)).2 (c := .keyDerivationInputDakSeed) not_false
    have g₂ := h₂.gone g₁
  · exact .of_sheds (h₀.trans (h₁.trans h₂)) (errReleaseOp_derived hv g₂)
  all_goals
    have h₃ := sheds_call hv (((s.call p (.destroyKey s.dakKeyId)).2.call p
      (.keyDerivationSetup psaAlgHkdfSha256)).2.call p .keyDerivationInputDakSeed).2
      (c := .keyDerivationInputInfo salt) not_false
    have g₃ := h₃.gone g₂
    have hs := h₀.trans (h₁.trans (h₂.trans h₃))
  · exact .of_sheds hs (errReleaseOp_derived hv g₃)
  · exact .of_sheds hs (outputDelegatedAttestationKey_derived hv hc c b n g₃)

/-! ## Requests for a key -/

/-- The state once the hash algorithm is checked. -/
def hashChecked (p : Platform κ) (hashAlgo : Nat) (s : State κ) : State κ :=
  ((s.call p (.hashSetup hashAlgo)).2.call p .hashAbort).2

theorem sheds_hashChecked (hv : v.Lawful p.services) (a : Nat) (s : State κ) :
    Sheds v s (hashChecked p a s) :=
  (sheds_call hv s (c := .hashSetup a) not_false).trans
    (sheds_call hv _ (c := .hashAbort) not_false)

theorem keyOf_hashChecked (hv : v.Lawful p.services) (a : Nat) (s : State κ) (id : Nat) :
    v.keyOf (hashChecked p a s).services id = v.keyOf s.services id :=
  (hv.frame .hashAbort _ id not_false).trans (hv.frame (.hashSetup a) s.services id not_false)

/-- The request is refused before the derivation: the hash algorithm is not supported, or there is
no boot state to derive from. -/
def RefusedEarly (p : Platform κ) (slots : MeasurementSlots) (hashAlgo : Nat) (s : State κ) : Prop :=
  (p.services (.hashSetup hashAlgo) s.services).1.status ≠ psaSuccess ∨
    ∀ items n, getPlatformBootState (fun items => (p.encode items).length) slots
      p.tfmAttestBootRecordsMaxSize = .ok (items, n) → (p.encode items).length = 0

/-- The destruction of the old key fails, with the key still there. -/
def Survives (v : KeyView κ Key) (p : Platform κ) (hashAlgo : Nat) (s : State κ) : Prop :=
  (p.services (.destroyKey s.dakKeyId) (hashChecked p hashAlgo s).services).1.status ≠ psaSuccess ∧
    (p.services (.destroyKey s.dakKeyId) (hashChecked p hashAlgo s).services).1.status ≠
      psaErrorInvalidHandle ∧
    v.keyOf (p.services (.destroyKey s.dakKeyId) (hashChecked p hashAlgo s).services).2 s.dakKeyId =
      v.keyOf s.services s.dakKeyId

/-- The flags and the key of a state are those of another. -/
structure Undisturbed (v : KeyView κ Key) (s s' : State κ) : Prop where
  sheds : Sheds v s s'
  dakKeyId : s'.dakKeyId = s.dakKeyId
  keyOf : v.keyOf s'.services s.dakKeyId = v.keyOf s.services s.dakKeyId

theorem getDelegatedKey_refusedEarly (hv : v.Lawful p.services) {slots : MeasurementSlots} {a : Nat}
    (c b n : Nat) (h : RefusedEarly p slots a s) :
    (delegatedAttestGetDelegatedKey p slots c b n a s).1 ≠ psaSuccess ∧
      Undisturbed v s (delegatedAttestGetDelegatedKey p slots c b n a s).2.2 := by
  have hu : Undisturbed v s (hashChecked p a s) :=
    ⟨sheds_hashChecked hv a s, rfl, keyOf_hashChecked hv a s _⟩
  unfold delegatedAttestGetDelegatedKey
  dsimp only
  split_ifs with h0
  · exact ⟨h0, hu⟩
  split
  · exact ⟨statusOf_ne _, hu⟩
  next items n' hb =>
    have hsalt : (p.encode items).length = 0 := h.elim (fun h => absurd (not_not.mp h0) h) fun h =>
      h items n' hb
    unfold deriveDelegatedAttestationKey
    rw [if_pos hsalt]
    exact ⟨invalidArgument_ne, hu⟩

/-- A request that is not refused early derives a key. -/
theorem getDelegatedKey_derives {slots : MeasurementSlots} {a : Nat} (c b n : Nat)
    (h : ¬ RefusedEarly p slots a s) : ∃ salt : List UInt8, salt.length ≠ 0 ∧
      delegatedAttestGetDelegatedKey p slots c b n a s =
        let r := deriveDelegatedAttestationKey p c b salt n (hashChecked p a s)
        if r.1 ≠ psaSuccess then r
        else (psaSuccess, r.2.1, { r.2.2 with dakRequested := true, dakPubHashAlgo := a }) := by
  obtain ⟨h0, he⟩ := not_or.mp h
  obtain ⟨items, n', hb, hsalt⟩ : ∃ items n', getPlatformBootState
      (fun items => (p.encode items).length) slots p.tfmAttestBootRecordsMaxSize =
        .ok (items, n') ∧ (p.encode items).length ≠ 0 := by
    by_contra hn
    exact he fun items n' hb => by_contra fun hs => hn ⟨items, n', hb, hs⟩
  refine ⟨p.encode items, hsalt, ?_⟩
  unfold delegatedAttestGetDelegatedKey
  rw [hb]
  exact if_neg h0

theorem getDelegatedKey_survives (hv : v.Lawful p.services) {a : Nat} (slots : MeasurementSlots)
    (c b n : Nat) (h : Survives v p a s) :
    (delegatedAttestGetDelegatedKey p slots c b n a s).1 ≠ psaSuccess ∧
      Undisturbed v s (delegatedAttestGetDelegatedKey p slots c b n a s).2.2 := by
  by_cases he : RefusedEarly p slots a s
  · exact getDelegatedKey_refusedEarly hv c b n he
  obtain ⟨salt, hsalt, hstate⟩ := getDelegatedKey_derives c b n he
  have hderive : deriveDelegatedAttestationKey p c b salt n (hashChecked p a s) =
      ((p.services (.destroyKey s.dakKeyId) (hashChecked p a s).services).1.status, [],
        ((hashChecked p a s).call p (.destroyKey s.dakKeyId)).2) := by
    unfold deriveDelegatedAttestationKey
    rw [if_neg hsalt]
    exact if_pos ⟨h.1, h.2.1⟩
  rw [hstate, hderive]
  dsimp only
  rw [if_pos h.1]
  exact ⟨h.1, (sheds_hashChecked hv a s).trans (sheds_call hv _ (c := .destroyKey _) not_false), rfl,
    h.2.2⟩

/-- The key that a request hands out, if it hands out one. -/
theorem getDelegatedKey_derived (hv : v.Lawful p.services) (hc : v.CleansUp p.services)
    {slots : MeasurementSlots} {a : Nat} (c b n : Nat) (h : ¬ RefusedEarly p slots a s) :
    Derived v s (delegatedAttestGetDelegatedKey p slots c b n a s) := by
  obtain ⟨salt, hsalt, hstate⟩ := getDelegatedKey_derives c b n h
  have hd := Derived.of_sheds (sheds_hashChecked hv a s)
    (@deriveDelegatedAttestationKey_derived _ _ v p (hashChecked p a s) hv hc c b n salt hsalt)
  rw [hstate]
  dsimp only
  generalize deriveDelegatedAttestationKey p c b salt n (hashChecked p a s) = r at hd
  cases hd with
  | fails hne hs hid =>
    rw [if_pos hne]
    exact .fails hne hs hid
  | hands hk =>
    rw [if_neg (not_not_intro rfl)]
    exact .hands hk

/-! ## Runs -/

/-- The keys that a sequence of requests hands out. -/
def grants (p : Platform κ) : List Request → State κ → List Grant
  | [], _ => []
  | r :: reqs, s => (r.grant p s).toList ++ grants p reqs (r.serve p s).2.2

/-- A key that is live was there before the request, or the request hands it out. -/
theorem serve_live (hv : v.Lawful p.services) (hc : v.CleansUp p.services) (r : Request)
    {id : Nat} {k : Key} (hl : v.keyOf (r.serve p s).2.2.services id = some k) :
    v.keyOf s.services id = some k ∨
      ∃ g ∈ r.grant p s, g.keyId = id ∧ g.exported = v.exported k := by
  cases r with
  | getDelegatedKey slots c b n a =>
    by_cases he : RefusedEarly p slots a s
    · exact .inl ((getDelegatedKey_refusedEarly hv c b n he).2.sheds.live id k hl)
    have hd := getDelegatedKey_derived hv hc c b n he
    change v.keyOf (delegatedAttestGetDelegatedKey p slots c b n a s).2.2.services id = some k at hl
    show _ ∨ ∃ g ∈ grantOf a (delegatedAttestGetDelegatedKey p slots c b n a s), _
    generalize delegatedAttestGetDelegatedKey p slots c b n a s = r at hd hl
    cases hd with
    | fails hne hs hid => exact .inl (hs.live id k hl)
    | hands hk =>
      refine (hk id k hl).imp_right fun ⟨hid, hkey⟩ => ⟨_, if_pos rfl, hid.symm, ?_⟩
      rw [hkey]
  | getPlatformToken h size => exact .inl ((sheds_token hv h size s).live id k hl)

theorem run_live (hv : v.Lawful p.services) (hc : v.CleansUp p.services) (reqs : List Request)
    (t : Tracked κ) {id : Nat} {k : Key}
    (hl : v.keyOf (reqs.foldl (Tracked.step p) t).state.services id = some k) :
    v.keyOf t.state.services id = some k ∨
      ∃ g ∈ grants p reqs t.state, g.keyId = id ∧ g.exported = v.exported k := by
  induction reqs generalizing t with
  | nil => exact .inl hl
  | cons r reqs ih =>
    rcases ih (t.step p r) hl with hl | ⟨g, hg, hid, hkey⟩
    · refine (serve_live hv hc r hl).imp_right fun ⟨g, hg, hid, hkey⟩ => ⟨g, ?_, hid, hkey⟩
      exact List.mem_append_left _ (Option.mem_toList.mpr hg)
    · exact .inr ⟨g, List.mem_append_right _ hg, hid, hkey⟩

/-- What holds between the state `s` before and the state `s'` after a request for a key that
fails: `kept` while the old key is not destroyed, `gone` if it is, and no key is live that was
never handed out. -/
structure FailsCleanly (v : KeyView κ Key) (p : Platform κ) (services : κ) (reqs : List Request)
    (slots : MeasurementSlots) (hashAlgo : Nat) (s s' : State κ) : Prop where
  kept : RefusedEarly p slots hashAlgo s ∨ Survives v p hashAlgo s → ∀ h size,
    (delegatedAttestGetPlatformToken p h size s').1 =
      (delegatedAttestGetPlatformToken p h size s).1
  gone : v.CleansUp p.services → ¬ RefusedEarly p slots hashAlgo s → ∀ h size,
    (delegatedAttestGetPlatformToken p h size s').1 ≠ psaSuccess
  handedOut : v.CleansUp p.services → ∀ id k, v.keyOf s'.services id = some k →
    v.keyOf services id = some k ∨
      ∃ g ∈ grants p reqs (.init services), g.keyId = id ∧ g.exported = v.exported k

/-- After any requests, a request for a key that fails before it destroys the old key leaves the
requests for a token as they were; one that fails later leaves no key. -/
theorem failedKeyRequest_failsCleanly (hv : v.Lawful p.services) (ht : v.TokenCalls p.services)
    (services : κ) (reqs : List Request) (slots : MeasurementSlots)
    (eccCurve keyBits keyBufSize hashAlgo : Nat)
    (hfails : (delegatedAttestGetDelegatedKey p slots eccCurve keyBits keyBufSize hashAlgo
      (run p services reqs).state).1 ≠ psaSuccess) :
    FailsCleanly v p services reqs slots hashAlgo (run p services reqs).state
      (delegatedAttestGetDelegatedKey p slots eccCurve keyBits keyBufSize hashAlgo
        (run p services reqs).state).2.2 := by
  have hlive := fun hc => @run_live _ _ v p hv hc reqs ⟨.init services, none⟩
  change ∀ hc id k, v.keyOf (run p services reqs).state.services id = some k → _ at hlive
  generalize (run p services reqs).state = s at hfails hlive
  constructor
  · intro h hash size
    have hu : Undisturbed v s
        (delegatedAttestGetDelegatedKey p slots eccCurve keyBits keyBufSize hashAlgo s).2.2 := by
      rcases h with h | h
      · exact (getDelegatedKey_refusedEarly hv eccCurve keyBits keyBufSize h).2
      · exact (getDelegatedKey_survives hv slots eccCurve keyBits keyBufSize h).2
    exact token_status ht hash size hu.sheds.dakRequested hu.dakKeyId hu.sheds.dakPubHashAlgo
      hu.keyOf
  · intro hc h hash size
    have hd := getDelegatedKey_derived hv hc eccCurve keyBits keyBufSize h
    generalize delegatedAttestGetDelegatedKey p slots eccCurve keyBits keyBufSize hashAlgo s = r
      at hd hfails
    cases hd with
    | fails hne hs hid => exact token_fails hv hash size hid
    | hands hk => exact absurd rfl hfails
  · intro hc id k hl
    refine hlive hc id k ?_
    by_cases h : RefusedEarly p slots hashAlgo s
    · exact (getDelegatedKey_refusedEarly hv eccCurve keyBits keyBufSize h).2.sheds.live id k hl
    have hd := getDelegatedKey_derived hv hc eccCurve keyBits keyBufSize h
    generalize delegatedAttestGetDelegatedKey p slots eccCurve keyBits keyBufSize hashAlgo s = r
      at hd hfails hl
    cases hd with
    | fails hne hs hid => exact hs.live id k hl
    | hands hk => exact absurd rfl hfails

/-! ## A service with room for many keys -/

/-- The number of keys there have been, and those that are still there. -/
structure KeyRing where
  count : Nat
  live : List Nat
deriving DecidableEq, Repr

def KeyRing.keyOf (st : KeyRing) (id : Nat) : Option Unit :=
  if id ∈ st.live ∧ id ≠ psaKeyIdNull then some () else none

def keyRingView : KeyView KeyRing Unit where
  keyOf := KeyRing.keyOf
  Dead st id := id ≤ st.count ∧ st.keyOf id = none
  exported _ := List.replicate 31 0 ++ [1]
  publicPart _ := generatorP256
  hash _ _ := generatorHash

/-- The calls of `fails` change nothing. -/
def keyRingServices (fails : Call → Bool) : Services KeyRing := fun c st =>
  if fails c then (⟨psaErrorGenericError, [], none⟩, st)
  else match c with
    | .destroyKey id =>
      if st.keyOf id = some () then
        (⟨psaSuccess, [], none⟩, { st with live := st.live.filter (· ≠ id) })
      else (⟨psaErrorInvalidHandle, [], none⟩, st)
    | .keyDerivationOutputKey _ =>
      (⟨psaSuccess, [], some (st.count + 1)⟩, ⟨st.count + 1, (st.count + 1) :: st.live⟩)
    | .exportKey id dataSize =>
      if st.keyOf id = some () ∧ 32 ≤ dataSize then
        (⟨psaSuccess, List.replicate 31 0 ++ [1], none⟩, st)
      else (⟨psaErrorInvalidHandle, [], none⟩, st)
    | .exportPublicKey id _ =>
      if st.keyOf id = some () then (⟨psaSuccess, generatorP256, none⟩, st)
      else (⟨psaErrorInvalidHandle, [], none⟩, st)
    | .hashCompare _ _ hash =>
      if hash = generatorHash then (⟨psaSuccess, [], none⟩, st)
      else (⟨psaErrorInvalidArgument, [], none⟩, st)
    | .initialAttestGetToken authChallenge tokenBufSize =>
      (⟨psaSuccess, authChallenge.take tokenBufSize, none⟩, st)
    | _ => (⟨psaSuccess, [], none⟩, st)

theorem KeyRing.keyOf_eq {st st' : KeyRing} {id : Nat} (h : id ∈ st'.live ↔ id ∈ st.live) :
    st'.keyOf id = st.keyOf id := by
  unfold KeyRing.keyOf
  simp only [h]

theorem KeyRing.keyOf_isSome {st : KeyRing} {id : Nat} {k : Unit} (h : st.keyOf id = some k) :
    id ∈ st.live ∧ id ≠ psaKeyIdNull := by
  unfold KeyRing.keyOf at h
  split_ifs at h with hid
  exact hid

theorem keyRing_frame (fails : Call → Bool) (c : Call) (st : KeyRing) (id : Nat)
    (h : ¬ c.Touches id (keyRingServices fails c st).1) :
    (keyRingServices fails c st).2.keyOf id = st.keyOf id := by
  unfold keyRingServices at h ⊢
  cases hf : fails c with
  | true => rfl
  | false =>
    rw [hf, if_neg Bool.false_ne_true] at h
    rw [if_neg Bool.false_ne_true]
    cases c with
    | destroyKey id' =>
      have hne : id ≠ id' := fun he => h (by subst he; dsimp only; split_ifs <;> rfl)
      dsimp only
      split_ifs
      · exact KeyRing.keyOf_eq (by simp [List.mem_filter, hne])
      · rfl
    | keyDerivationOutputKey attributes =>
      have hne : id ≠ st.count + 1 := fun he => h (congrArg some he.symm)
      exact KeyRing.keyOf_eq (by simp [List.mem_cons, hne])
    | exportKey id' n => dsimp only; split_ifs <;> rfl
    | exportPublicKey id' n => dsimp only; split_ifs <;> rfl
    | hashCompare alg input hash => dsimp only; split_ifs <;> rfl
    | _ => rfl

theorem keyRing_lawful (fails : Call → Bool) : keyRingView.Lawful (keyRingServices fails) where
  frame := keyRing_frame fails
  null st := if_neg fun h => h.2 rfl
  destroyKey st id h := by
    unfold keyRingServices at h ⊢
    split_ifs at h ⊢ with hf
    · exact absurd h genericError_ne
    · dsimp only at h ⊢
      split_ifs at h ⊢
      · exact if_neg fun hid => by simpa [List.mem_filter] using hid.1
      · exact absurd h invalidHandle_ne
  destroyKey_invalidHandle st id h := by
    unfold keyRingServices at h
    split_ifs at h with hf
    · exact absurd h (show psaErrorGenericError ≠ psaErrorInvalidHandle by decide)
    · dsimp only at h
      split_ifs at h with hk
      · exact absurd h.symm invalidHandle_ne
      · cases hid : st.keyOf id with
        | none => exact hid
        | some k => exact absurd hid hk
  destroyKey_fails st id h := by
    unfold keyRingServices at h ⊢
    split_ifs at h ⊢ with hf
    · exact .inl rfl
    · dsimp only at h ⊢
      split_ifs at h ⊢
      · exact absurd rfl h
      · exact .inl rfl
  outputKey st attributes h := by
    unfold keyRingServices at h ⊢
    split_ifs at h ⊢ with hf
    · exact absurd h genericError_ne
    · exact ⟨st.count + 1, (), rfl, if_pos ⟨List.mem_cons_self, Nat.succ_ne_zero _⟩⟩
  outputKey_fails st attributes h := by
    unfold keyRingServices at h ⊢
    split_ifs at h ⊢ with hf
    · exact .inl rfl
    · exact absurd rfl h
  exportKey st id n h := by
    unfold keyRingServices at h ⊢
    split_ifs at h ⊢ with hf
    · exact absurd h genericError_ne
    · dsimp only at h ⊢
      split_ifs at h ⊢ with hk
      · exact ⟨(), hk.1, rfl⟩
      · exact absurd h invalidHandle_ne
  exportPublicKey st id n h := by
    unfold keyRingServices at h
    split_ifs at h with hf
    · exact absurd h genericError_ne
    · dsimp only at h
      split_ifs at h with hk
      · exact ⟨(), hk⟩
      · exact absurd h invalidHandle_ne

/-- Exports and destructions of some keys fail. -/
def failsOn (exports destroys : List Nat) : Call → Bool
  | .exportKey id _ => id ∈ exports
  | .destroyKey id => id ∈ destroys
  | _ => false

theorem keyRing_tokenCalls (exports destroys : List Nat) :
    keyRingView.TokenCalls (keyRingServices (failsOn exports destroys)) where
  exportPublicKey st st' id n h := by
    have hk : (st.keyOf id = some ()) = (st'.keyOf id = some ()) := congrArg (· = some ()) h
    show (if st.keyOf id = some () then _ else _ : Answer × KeyRing).1 =
      (if st'.keyOf id = some () then _ else _ : Answer × KeyRing).1
    simp only [hk]
    split_ifs <;> rfl
  hashCompare st st' alg input hash := by
    show (if hash = generatorHash then _ else _ : Answer × KeyRing).1.status =
      (if hash = generatorHash then _ else _ : Answer × KeyRing).1.status
    split_ifs <;> rfl
  initialAttestGetToken st st' authChallenge n := rfl

theorem keyRing_cleansUp (exports : List Nat) :
    keyRingView.CleansUp (keyRingServices (failsOn exports [])) where
  destroyKey st id k hk := by
    have hk : st.keyOf id = some () := hk
    show (if st.keyOf id = some () then _ else _ : Answer × KeyRing).1.status = psaSuccess
    rw [if_pos hk]
  abort _ _ _ _ _ _ _ _ _ := rfl

def keyRingPlatform (fails : Call → Bool) : Platform KeyRing where
  services := keyRingServices fails
  psaHashLength _ := 32
  encode items := List.replicate items.length 0
  tfmAttestBootRecordsMaxSize := 1024
  psaInitialAttestTokenMaxSize := 1024

/-- The export of the second key fails. -/
theorem failedKeyRequest_failsCleanly_export :
    FailsCleanly keyRingView (keyRingPlatform (failsOn [2] [])) ⟨0, []⟩ [requestP256] growingSlots
      psaAlgSha256 (run (keyRingPlatform (failsOn [2] [])) ⟨0, []⟩ [requestP256]).state
      (delegatedAttestGetDelegatedKey (keyRingPlatform (failsOn [2] [])) growingSlots 0x12 256 66
        psaAlgSha256 (run (keyRingPlatform (failsOn [2] [])) ⟨0, []⟩ [requestP256]).state).2.2 :=
  failedKeyRequest_failsCleanly (p := keyRingPlatform (failsOn [2] [])) (keyRing_lawful _)
    (keyRing_tokenCalls [2] []) ⟨0, []⟩ [requestP256] growingSlots 0x12 256 66 psaAlgSha256
    (by decide +kernel)

/-- The first key is gone once the export of the second has failed, even if everything is cleaned
up; if the destruction of the second fails as well, it stays without ever having been handed out. -/
theorem failedKeyRequest_disturbs :
    (¬ ∀ (κ Key : Type) (v : KeyView κ Key) (p : Platform κ), v.Lawful p.services →
      v.TokenCalls p.services → v.CleansUp p.services → ∀ services reqs g slots c b n a,
      (run p services reqs).last = some g →
      (delegatedAttestGetDelegatedKey p slots c b n a (run p services reqs).state).1 ≠ psaSuccess →
      ∀ k, v.exported k = g.exported → ∀ size,
        (delegatedAttestGetPlatformToken p (v.hash g.hashAlgo (v.publicPart k)) size
          (delegatedAttestGetDelegatedKey p slots c b n a (run p services reqs).state).2.2).1 =
        (delegatedAttestGetPlatformToken p (v.hash g.hashAlgo (v.publicPart k)) size
          (run p services reqs).state).1) ∧
    ¬ ∀ (κ Key : Type) (v : KeyView κ Key) (p : Platform κ), v.Lawful p.services →
      v.TokenCalls p.services → ∀ services reqs g slots c b n a,
      (run p services reqs).last = some g →
      (delegatedAttestGetDelegatedKey p slots c b n a (run p services reqs).state).1 ≠ psaSuccess →
      ∀ id k, v.keyOf (delegatedAttestGetDelegatedKey p slots c b n a
          (run p services reqs).state).2.2.services id = some k →
        v.keyOf services id = some k ∨
          ∃ g ∈ grants p reqs (.init services), g.keyId = id ∧ g.exported = v.exported k := by
  constructor
  · intro h
    have hs := h KeyRing Unit keyRingView (keyRingPlatform (failsOn [2] [])) (keyRing_lawful _)
      (keyRing_tokenCalls [2] []) (keyRing_cleansUp [2]) ⟨0, []⟩ [requestP256]
      ⟨1, List.replicate 31 0 ++ [1], psaAlgSha256⟩ growingSlots 0x12 256 66 psaAlgSha256
      (by rfl) (by decide +kernel) () rfl 1024
    exact absurd hs (by decide +kernel)
  · intro h
    have hs := h KeyRing Unit keyRingView (keyRingPlatform (failsOn [2] [2])) (keyRing_lawful _)
      (keyRing_tokenCalls [2] [2]) ⟨0, []⟩ [requestP256]
      ⟨1, List.replicate 31 0 ++ [1], psaAlgSha256⟩ growingSlots 0x12 256 66 psaAlgSha256
      (by rfl) (by decide +kernel) 2 () (by decide +kernel)
    rcases hs with hs | ⟨g, hg, hid, -⟩
    · exact absurd hs (by decide +kernel)
    · have hids : ∀ g ∈ grants (keyRingPlatform (failsOn [2] [2])) [requestP256]
          (.init ⟨0, []⟩), g.keyId ≠ 2 := by
        decide +kernel
      exact hids g hg hid

end DelegatedAttest
