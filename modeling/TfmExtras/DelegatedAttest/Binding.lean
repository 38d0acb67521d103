import TfmExtras.DelegatedAttest.Keys

/-! A platform token is bound to the delegated key that was handed out last. -/

namespace DelegatedAttest
open MeasuredBoot

/-! ## What the services are relied on for -/

/-- The keys behind the ids of the crypto service. -/
structure KeyView (κ Key : Type) where
  keyOf : κ → Nat → Option Key
  Dead : κ → Nat → Prop
  exported : Key → List UInt8
  publicPart : Key → List UInt8
  hash : Nat → List UInt8 → List UInt8

variable {κ Key : Type} {v : KeyView κ Key} {p : Platform κ} {s s' s'' : State κ}

/-- Between two states a live key stays live with the same content or dies, for good. -/
structure KeyView.Keeps (v : KeyView κ Key) (services services' : κ) : Prop where
  dead : ∀ id, v.Dead services id → v.Dead services' id
  live : ∀ id k, v.keyOf services id = some k → v.keyOf services' id = some k ∨ v.Dead services' id

/-- The behaviour of the services that does not depend on which calls fail. -/
structure KeyView.Sound (v : KeyView κ Key) (services : Services κ) : Prop where
  keeps : ∀ c st, v.Keeps st (services c st).2
  null_dead : ∀ st, v.Dead st psaKeyIdNull
  dead_not_live : ∀ st id, v.Dead st id → v.keyOf st id = none
  destroyKey : ∀ st id k, v.keyOf st id = some k →
    (services (.destroyKey id) st).1.status = psaSuccess ∧
      v.Dead (services (.destroyKey id) st).2 id
  outputKey : ∀ st attributes,
    (services (.keyDerivationOutputKey attributes) st).1.status = psaSuccess →
    ∃ id k, (services (.keyDerivationOutputKey attributes) st).1.keyId = some id ∧
      v.keyOf (services (.keyDerivationOutputKey attributes) st).2 id = some k
  outputKey_fails : ∀ st attributes,
    (services (.keyDerivationOutputKey attributes) st).1.status ≠ psaSuccess →
    (services (.keyDerivationOutputKey attributes) st).1.keyId = none ∨
      (services (.keyDerivationOutputKey attributes) st).1.keyId = some psaKeyIdNull
  exportKey : ∀ st id size, (services (.exportKey id size) st).1.status = psaSuccess →
    ∃ k, v.keyOf st id = some k ∧ (services (.exportKey id size) st).1.data = v.exported k
  exportPublicKey : ∀ st id size, (services (.exportPublicKey id size) st).1.status = psaSuccess →
    ∃ k, v.keyOf st id = some k ∧ (services (.exportPublicKey id size) st).1.data = v.publicPart k
  hashCompare : ∀ st alg input hash,
    (services (.hashCompare alg input hash) st).1.status = psaSuccess → hash = v.hash alg input
  abort : ∀ st attributes id size st',
    (services (.keyDerivationOutputKey attributes) st).1.status = psaSuccess →
    (services (.keyDerivationOutputKey attributes) st).1.keyId = some id →
    st' = (services (.keyDerivationOutputKey attributes) st).2 →
    (services (.exportKey id size) st').1.status = psaSuccess →
    (services .keyDerivationAbort (services (.exportKey id size) st').2).1.status = psaSuccess

/-! ## Steps -/

def Call.Issues : Call → Prop
  | .initialAttestGetToken _ _ => True
  | _ => False

/-- Calls that issue no token and leave the flags alone. -/
structure Goes (v : KeyView κ Key) (s s' : State κ) : Prop where
  keeps : v.Keeps s.services s'.services
  calls : ∃ cs, s'.calls = s.calls ++ cs ∧ ∀ c ∈ cs, ¬ c.Issues
  dakRequested : s'.dakRequested = s.dakRequested
  dakPubHashAlgo : s'.dakPubHashAlgo = s.dakPubHashAlgo

theorem Goes.refl (v : KeyView κ Key) (s : State κ) : Goes v s s :=
  ⟨⟨fun _ h => h, fun _ _ h => .inl h⟩, ⟨[], (List.append_nil _).symm, by simp⟩, rfl, rfl⟩

theorem Goes.trans (h : Goes v s s') (h' : Goes v s' s'') : Goes v s s'' := by
  obtain ⟨hk, ⟨cs, hcs, hq⟩, hr, ha⟩ := h
  obtain ⟨hk', ⟨cs', hcs', hq'⟩, hr', ha'⟩ := h'
  refine ⟨⟨fun id hd => hk'.dead id (hk.dead id hd), fun id k hl => ?_⟩,
    ⟨cs ++ cs', by rw [hcs', hcs, List.append_assoc], ?_⟩, hr'.trans hr, ha'.trans ha⟩
  · rcases hk.live id k hl with hl | hd
    · exact hk'.live id k hl
    · exact .inr (hk'.dead id hd)
  · intro c hc
    exact (List.mem_append.mp hc).elim (hq c) (hq' c)

theorem goes_call (hv : v.Sound p.services) (s : State κ) {c : Call} (hc : ¬ c.Issues) :
    Goes v s (s.call p c).2 :=
  ⟨hv.keeps c s.services, ⟨[c], rfl, fun _ h => List.mem_singleton.mp h ▸ hc⟩, rfl, rfl⟩

/-- A key id that is not held for a key yet to come. -/
def KeyView.Known (v : KeyView κ Key) (services : κ) (id : Nat) : Prop :=
  v.Dead services id ∨ ∃ k, v.keyOf services id = some k

/-- The id is that of the key `k`, unless the key is gone. -/
def KeyView.Holds (v : KeyView κ Key) (services : κ) (id : Nat) (k : Key) : Prop :=
  v.keyOf services id = some k ∨ v.Dead services id

theorem KeyView.Keeps.holds {st st' : κ} (h : v.Keeps st st') {id : Nat} {k : Key}
    (hk : v.Holds st id k) : v.Holds st' id k :=
  hk.elim (h.live id k) fun hd => .inr (h.dead id hd)

theorem KeyView.Keeps.known {st st' : κ} (h : v.Keeps st st') {id : Nat}
    (hk : v.Known st id) : v.Known st' id :=
  hk.elim (fun hd => .inl (h.dead id hd)) fun ⟨k, hk⟩ =>
    (h.live id k hk).elim (fun hl => .inr ⟨k, hl⟩) .inl

theorem dead_of_destroy (hv : v.Sound p.services) (h : v.Known s.services s.dakKeyId) :
    v.Dead (s.call p (.destroyKey s.dakKeyId)).2.services s.dakKeyId := by
  rcases h with hd | ⟨k, hk⟩
  · exact (hv.keeps _ _).dead _ hd
  · exact (hv.destroyKey _ _ k hk).2

/-! ## Deriving a key -/

theorem genericError_ne : psaErrorGenericError ≠ psaSuccess := by decide

theorem invalidArgument_ne : psaErrorInvalidArgument ≠ psaSuccess := by decide

/-- How the derivation of a key ends. -/
def Derives (v : KeyView κ Key) (s : State κ) (r : PsaStatus × List UInt8 × State κ) : Prop :=
  Goes v s r.2.2 ∧
    ((r.1 ≠ psaSuccess ∧ v.Dead r.2.2.services r.2.2.dakKeyId) ∨
      (r.1 = psaSuccess ∧ ∃ k, v.Holds r.2.2.services r.2.2.dakKeyId k ∧ r.2.1 = v.exported k))

theorem errReleaseOp_derives (hv : v.Sound p.services) (h : v.Dead s.services s.dakKeyId) :
    Derives v s (errReleaseOp p s) :=
  ⟨goes_call hv s not_false, .inl ⟨genericError_ne, (hv.keeps _ _).dead _ h⟩⟩

theorem Derives.of_goes {r : PsaStatus × List UInt8 × State κ} (h : Goes v s s')
    (hd : Derives v s' r) : Derives v s r := ⟨h.trans hd.1, hd.2⟩

theorem Goes.withKeyId (h : Goes v s s') (id : Nat) : Goes v s { s' with dakKeyId := id } :=
  ⟨h.1, h.2, h.3, h.4⟩

theorem errReleaseKey_derives (hv : v.Sound p.services) (h : v.Known s.services s.dakKeyId) :
    Derives v s (errReleaseKey p s) :=
  Derives.of_goes (goes_call hv s (c := .destroyKey s.dakKeyId) not_false)
    (errReleaseOp_derives hv (dead_of_destroy hv h))

theorem exportDelegatedAttestationKey_derives (hv : v.Sound p.services) (n : Nat) {k : Key}
    (hk : v.keyOf s.services s.dakKeyId = some k)
    (habort : (p.services (.exportKey s.dakKeyId n) s.services).1.status = psaSuccess →
      (p.services .keyDerivationAbort
        (p.services (.exportKey s.dakKeyId n) s.services).2).1.status = psaSuccess) :
    Derives v s (exportDelegatedAttestationKey p n s) := by
  have hg := goes_call (v := v) hv s (c := .exportKey s.dakKeyId n) not_false
  unfold exportDelegatedAttestationKey
  dsimp only
  split_ifs with hx
  · exact Derives.of_goes hg (errReleaseKey_derives hv (hg.keeps.known (.inr ⟨k, hk⟩)))
  · have hx := not_not.mp hx
    obtain ⟨k', hk', hdata⟩ := hv.exportKey _ _ _ hx
    obtain rfl : k' = k := Option.some_inj.mp (hk'.symm.trans hk)
    have ha := goes_call (v := v) hv (s.call p (.exportKey s.dakKeyId n)).2
      (c := .keyDerivationAbort) not_false
    exact ⟨hg.trans ha, .inr ⟨habort hx, k', ha.keeps.holds (hg.keeps.holds (.inl hk)), hdata⟩⟩

theorem outputDelegatedAttestationKey_derives (hv : v.Sound p.services) (c b n : Nat)
    (h : v.Dead s.services s.dakKeyId) :
    Derives v s (outputDelegatedAttestationKey p c b n s) := by
  have hg := goes_call (v := v) hv s (c := .keyDerivationOutputKey ⟨c, b⟩) not_false
  unfold outputDelegatedAttestationKey
  dsimp only
  split_ifs with ho
  · -- no key: the id is still that of the old key, or null
    refine Derives.of_goes (hg.withKeyId _) (errReleaseOp_derives hv ?_)
    show v.Dead _ ((p.services _ s.services).1.keyId.getD s.dakKeyId)
    rcases hv.outputKey_fails _ _ ho with he | he
    · rw [he]
      exact (hv.keeps _ _).dead _ h
    · rw [he]
      exact hv.null_dead _
  · have ho := not_not.mp ho
    obtain ⟨id, k, hid, hk⟩ := hv.outputKey _ _ ho
    have hget : (s.call p (.keyDerivationOutputKey ⟨c, b⟩)).1.keyId.getD
        (s.call p (.keyDerivationOutputKey ⟨c, b⟩)).2.dakKeyId = id := by
      show (p.services _ s.services).1.keyId.getD s.dakKeyId = id
      rw [hid]
      rfl
    rw [hget]
    exact Derives.of_goes (hg.withKeyId id)
      (exportDelegatedAttestationKey_derives hv n hk (hv.abort _ _ _ _ _ ho hid rfl))

theorem deriveDelegatedAttestationKey_derives (hv : v.Sound p.services) (c b n : Nat)
    (salt : List UInt8) (h : v.Known s.services s.dakKeyId) :
    (deriveDelegatedAttestationKey p c b salt n s).1 ≠ psaSuccess ∧
        (deriveDelegatedAttestationKey p c b salt n s).2.2 = s ∨
      Derives v s (deriveDelegatedAttestationKey p c b salt n s) := by
  have hd := dead_of_destroy hv h
  have g0 := goes_call (v := v) hv s (c := .destroyKey s.dakKeyId) not_false
  unfold deriveDelegatedAttestationKey
  dsimp only
  split_ifs with h0 h1 h2 h3 h4
  · exact .inl ⟨invalidArgument_ne, rfl⟩
  · exact .inr ⟨g0, .inl ⟨h1.1, hd⟩⟩
  all_goals
    have g1 := goes_call (v := v) hv (s.call p (.destroyKey s.dakKeyId)).2
      (c := .keyDerivationSetup psaAlgHkdfSha256) not_false
    have hd1 := g1.keeps.dead _ hd
  · exact .inr ⟨g0.trans g1, .inl ⟨h2, hd1⟩⟩
  all_goals
    have g2 := goes_call (v := v) hv ((s.call p (.destroyKey s.dakKeyId)).2.call p
      (.keyDerivationSetup psaAlgHkdfSha256)).2 (c := .keyDerivationInputDakSeed) not_false
    have hd2 := g2.keeps.dead _ hd1
  · exact .inr (Derives.of_goes (g0.trans (g1.trans g2)) (errReleaseOp_derives hv hd2))
  all_goals
    have g3 := goes_call (v := v) hv (((s.call p (.destroyKey s.dakKeyId)).2.call p
      (.keyDerivationSetup psaAlgHkdfSha256)).2.call p .keyDerivationInputDakSeed).2
      (c := .keyDerivationInputInfo salt) not_false
    have hd3 := g3.keeps.dead _ hd2
    have hg := g0.trans (g1.trans (g2.trans g3))
  · exact .inr (Derives.of_goes hg (errReleaseOp_derives hv hd3))
  · exact .inr (Derives.of_goes hg (outputDelegatedAttestationKey_derives hv c b n hd3))

/-! ## Requests -/

inductive Request
  | getDelegatedKey (slots : MeasurementSlots) (eccCurve keyBits keyBufSize hashAlgo : Nat)
  | getPlatformToken (dakPubHash : List UInt8) (tokenBufSize : Nat)

def Request.serve (p : Platform κ) (s : State κ) : Request → PsaStatus × List UInt8 × State κ
  | .getDelegatedKey slots eccCurve keyBits keyBufSize hashAlgo =>
    delegatedAttestGetDelegatedKey p slots eccCurve keyBits keyBufSize hashAlgo s
  | .getPlatformToken dakPubHash tokenBufSize =>
    delegatedAttestGetPlatformToken p dakPubHash tokenBufSize s

/-- The key that a successful request hands out. -/
structure Grant where
  keyId : Nat
  exported : List UInt8
  hashAlgo : Nat

/-- The key that the result of a request for a key hands out. -/
def grantOf (hashAlgo : Nat) (r : PsaStatus × List UInt8 × State κ) : Option Grant :=
  if r.1 = psaSuccess then some ⟨r.2.2.dakKeyId, r.2.1, hashAlgo⟩ else none

def Request.grant (p : Platform κ) (s : State κ) : Request → Option Grant
  | .getDelegatedKey slots eccCurve keyBits keyBufSize hashAlgo =>
    grantOf hashAlgo (delegatedAttestGetDelegatedKey p slots eccCurve keyBits keyBufSize hashAlgo s)
  | .getPlatformToken _ _ => none

/-- The partition with the key handed out last. -/
structure Tracked (κ : Type) where
  state : State κ
  last : Option Grant

def Tracked.step (p : Platform κ) (t : Tracked κ) (r : Request) : Tracked κ :=
  ⟨(r.serve p t.state).2.2, (r.grant p t.state).or t.last⟩

/-- The partition after a sequence of requests. -/
def run (p : Platform κ) (services : κ) (reqs : List Request) : Tracked κ :=
  reqs.foldl (Tracked.step p) ⟨.init services, none⟩

def Call.challenge : Call → Option (List UInt8)
  | .initialAttestGetToken authChallenge _ => some authChallenge
  | _ => none

/-- The challenges of the tokens issued between two states. -/
def issued (s s' : State κ) : List (List UInt8) :=
  (s'.calls.drop s.calls.length).filterMap Call.challenge

/-- The challenge is the hash of the key handed out last, which is live. -/
def Tracked.Bound (v : KeyView κ Key) (p : Platform κ) (t : Tracked κ) (h : List UInt8) : Prop :=
  ∃ g k, t.last = some g ∧ v.keyOf t.state.services g.keyId = some k ∧
    v.exported k = g.exported ∧ h.length = p.psaHashLength g.hashAlgo ∧
    h = v.hash g.hashAlgo (v.publicPart k)

theorem Goes.issued_eq (h : Goes v s s') : issued s s' = [] := by
  obtain ⟨cs, hcs, hq⟩ := h.calls
  unfold issued
  rw [hcs, List.drop_left]
  refine List.filterMap_eq_nil_iff.mpr fun c hc => ?_
  cases c <;> first | rfl | exact absurd trivial (hq _ hc)

/-- How a request for a key ends. -/
inductive GetsKey (v : KeyView κ Key) (s : State κ) (hashAlgo : Nat) :
    PsaStatus × List UInt8 × State κ → Prop
  | fails {status : PsaStatus} {key : List UInt8} {s' : State κ} (hne : status ≠ psaSuccess)
      (hg : Goes v s s') (hid : s'.dakKeyId = s.dakKeyId ∨ v.Dead s'.services s'.dakKeyId) :
      GetsKey v s hashAlgo (status, key, s')
  | hands {s' : State κ} {k : Key} (hg : Goes v s s') (hk : v.Holds s'.services s'.dakKeyId k) :
      GetsKey v s hashAlgo (psaSuccess, v.exported k,
        { s' with dakRequested := true, dakPubHashAlgo := hashAlgo })

theorem statusOf_ne (e : Error) : statusOf e ≠ psaSuccess := by cases e <;> decide

theorem delegatedAttestGetDelegatedKey_getsKey (hv : v.Sound p.services) (slots : MeasurementSlots)
    (c b n a : Nat) (h : v.Known s.services s.dakKeyId) :
    GetsKey v s a (delegatedAttestGetDelegatedKey p slots c b n a s) := by
  have hg := (goes_call (v := v) hv s (c := .hashSetup a) not_false).trans
    (goes_call hv _ (c := .hashAbort) not_false)
  unfold delegatedAttestGetDelegatedKey
  dsimp only
  split_ifs with h0
  · exact .fails h0 hg (.inl rfl)
  split
  · exact .fails (statusOf_ne _) hg (.inl rfl)
  next items _ _ =>
    rcases deriveDelegatedAttestationKey_derives hv c b n (p.encode items) (hg.keeps.known h) with
      ⟨hne, hs⟩ | ⟨hd, ⟨hne, hdead⟩ | ⟨hok, k, hk, hdata⟩⟩
    · rw [if_pos hne]
      exact .fails hne (hs.symm ▸ hg) (.inl ((congrArg State.dakKeyId hs).trans rfl))
    · rw [if_pos hne]
      exact .fails hne (hg.trans hd) (.inr hdead)
    · rw [if_neg (not_not_intro hok), hdata]
      exact .hands (hg.trans hd) hk

/-- How a request for a token ends. -/
inductive GetsToken (v : KeyView κ Key) (p : Platform κ) (s : State κ) (h : List UInt8)
    (size : Nat) : PsaStatus × List UInt8 × State κ → Prop
  | refused {status : PsaStatus} {s' : State κ} (hne : status ≠ psaSuccess) (hg : Goes v s s')
      (hid : s'.dakKeyId = s.dakKeyId) : GetsToken v p s h size (status, [], s')
  | issues {r : PsaStatus × List UInt8 × State κ} {s' : State κ} {k : Key}
      (hreq : s.dakRequested = true) (hg : Goes v s s') (hid : s'.dakKeyId = s.dakKeyId)
      (hk : v.keyOf s.services s.dakKeyId = some k)
      (hlen : h.length = p.psaHashLength s.dakPubHashAlgo)
      (hh : h = v.hash s.dakPubHashAlgo (v.publicPart k))
      (hr : r.2.2 = (s'.call p (.initialAttestGetToken h size)).2) : GetsToken v p s h size r

theorem verifyDakPubHash_spec (hv : v.Sound p.services) (h : List UInt8) :
    Goes v s (verifyDakPubHash p h s).2 ∧ (verifyDakPubHash p h s).2.dakKeyId = s.dakKeyId ∧
      ((verifyDakPubHash p h s).1 = psaSuccess → h.length = p.psaHashLength s.dakPubHashAlgo ∧
        ∃ k, v.keyOf s.services s.dakKeyId = some k ∧
          h = v.hash s.dakPubHashAlgo (v.publicPart k)) := by
  unfold verifyDakPubHash
  dsimp only
  split_ifs with h0 h1 h2
  · exact ⟨.refl v s, rfl, fun hs => absurd hs invalidArgument_ne⟩
  all_goals
    have g1 := goes_call (v := v) hv s
      (c := .exportPublicKey s.dakKeyId (psaKeyExportEccPublicKeyMaxSize 521)) not_false
  · exact ⟨g1, rfl, fun hs => absurd hs genericError_ne⟩
  all_goals
    have g2 := g1.trans (goes_call hv _ (c := .hashCompare s.dakPubHashAlgo (s.call p
      (.exportPublicKey s.dakKeyId (psaKeyExportEccPublicKeyMaxSize 521))).1.data h) not_false)
  · exact ⟨g2, rfl, fun hs => absurd hs invalidArgument_ne⟩
  · obtain ⟨k, hk, hdata⟩ := hv.exportPublicKey _ _ _ (not_not.mp h1)
    exact ⟨g2, rfl, fun _ => ⟨not_not.mp h0, k, hk, hdata ▸ hv.hashCompare _ _ _ _ (not_not.mp h2)⟩⟩

theorem delegatedAttestGetPlatformToken_getsToken (hv : v.Sound p.services) (h : List UInt8)
    (size : Nat) : GetsToken v p s h size (delegatedAttestGetPlatformToken p h size s) := by
  obtain ⟨hg, hid, hok⟩ := verifyDakPubHash_spec (s := s) hv h
  unfold delegatedAttestGetPlatformToken
  dsimp only
  split_ifs with h0 h1 h2
  · exact .refused invalidArgument_ne (.refl v s) rfl
  · exact .refused h1 hg hid
  all_goals
    obtain ⟨hlen, k, hk, hh⟩ := hok (not_not.mp h1)
    have hreq : s.dakRequested = true := by simpa using h0
    exact .issues hreq hg hid hk hlen hh rfl

/-! ## Runs -/

/-- What holds between requests. -/
structure Inv (v : KeyView κ Key) (t : Tracked κ) : Prop where
  known : v.Known t.state.services t.state.dakKeyId
  fresh : t.last = none → t.state.dakRequested = false
  granted : ∀ g, t.last = some g → t.state.dakPubHashAlgo = g.hashAlgo ∧
    ∀ k, v.keyOf t.state.services t.state.dakKeyId = some k →
      t.state.dakKeyId = g.keyId ∧ v.exported k = g.exported

/-- A key that is live was live before, unless its id was free. -/
theorem KeyView.Sound.live_before (hv : v.Sound p.services) {st st' : κ} (h : v.Keeps st st')
    {id : Nat} {k : Key} (hk : v.Known st id) (hl : v.keyOf st' id = some k) :
    v.keyOf st id = some k := by
  rcases hk with hd | ⟨k', hk'⟩
  · exact absurd ((hv.dead_not_live _ _ (h.dead _ hd)).symm.trans hl) nofun
  · rcases h.live _ _ hk' with hl' | hd
    · rwa [Option.some_inj.mp (hl.symm.trans hl')]
    · exact absurd ((hv.dead_not_live _ _ hd).symm.trans hl) nofun

/-- A request that hands out no key keeps the invariant. -/
theorem Inv.keeps {t : Tracked κ} (hv : v.Sound p.services) (h : Inv v t)
    (hk : v.Keeps t.state.services s'.services) (hr : s'.dakRequested = t.state.dakRequested)
    (ha : s'.dakPubHashAlgo = t.state.dakPubHashAlgo)
    (hid : s'.dakKeyId = t.state.dakKeyId ∨ v.Dead s'.services s'.dakKeyId) :
    Inv v ⟨s', t.last⟩ := by
  rcases hid with hid | hd
  · refine ⟨?_, fun hn => hr.trans (h.fresh hn), fun g hg => ⟨ha.trans (h.granted g hg).1, ?_⟩⟩
    · show v.Known s'.services s'.dakKeyId
      rw [hid]
      exact hk.known h.known
    · intro k hl
      change v.keyOf s'.services s'.dakKeyId = some k at hl
      rw [hid] at hl
      obtain ⟨hg', he⟩ := (h.granted g hg).2 k (hv.live_before hk h.known hl)
      exact ⟨hid.trans hg', he⟩
  · refine ⟨.inl hd, fun hn => hr.trans (h.fresh hn), fun g hg => ⟨ha.trans (h.granted g hg).1, ?_⟩⟩
    intro k hl
    exact absurd ((hv.dead_not_live _ _ hd).symm.trans hl) nofun

theorem Inv.step {t : Tracked κ} (hv : v.Sound p.services) (h : Inv v t) (r : Request) :
    Inv v (t.step p r) := by
  cases r with
  | getDelegatedKey slots c b n a =>
    have hr := delegatedAttestGetDelegatedKey_getsKey hv slots c b n a h.known
    show Inv v ⟨(delegatedAttestGetDelegatedKey p slots c b n a t.state).2.2,
      (grantOf a (delegatedAttestGetDelegatedKey p slots c b n a t.state)).or t.last⟩
    generalize delegatedAttestGetDelegatedKey p slots c b n a t.state = out at hr
    unfold grantOf
    cases hr with
    | fails hne hg hid =>
      rw [if_neg hne]
      exact h.keeps hv hg.keeps hg.dakRequested hg.dakPubHashAlgo hid
    | @hands s' k hg hk =>
      rw [if_pos rfl]
      refine ⟨hk.elim (fun hl => .inr ⟨k, hl⟩) .inl, nofun, fun g hg => ?_⟩
      obtain rfl := Option.some_inj.mp hg
      refine ⟨rfl, fun k' hl => ⟨rfl, ?_⟩⟩
      rcases hk with hl' | hd
      · rw [Option.some_inj.mp (hl.symm.trans hl')]
      · exact absurd ((hv.dead_not_live _ _ hd).symm.trans hl) nofun
  | getPlatformToken hash size =>
    have hr := delegatedAttestGetPlatformToken_getsToken (s := t.state) hv hash size
    show Inv v ⟨(delegatedAttestGetPlatformToken p hash size t.state).2.2, t.last⟩
    generalize delegatedAttestGetPlatformToken p hash size t.state = out at hr
    cases hr with
    | refused hne hg hid => exact h.keeps hv hg.keeps hg.dakRequested hg.dakPubHashAlgo (.inl hid)
    | @issues _ s' k hreq hg hid hk hlen hh hr =>
      rw [hr]
      have hi := h.keeps hv hg.keeps hg.dakRequested hg.dakPubHashAlgo (.inl hid)
      exact Inv.keeps (t := ⟨s', t.last⟩) hv hi (hv.keeps _ _) rfl rfl (.inl rfl)

theorem inv_run (hv : v.Sound p.services) (services : κ) (reqs : List Request) :
    Inv v (run p services reqs) := by
  have hinit : Inv v ⟨.init services, none⟩ :=
    ⟨.inl (hv.null_dead _), fun _ => rfl, nofun⟩
  unfold run
  induction reqs using List.reverseRecOn with
  | nil => exact hinit
  | append_singleton reqs r ih =>
    rw [List.foldl_append]
    exact ih.step hv r

/-- Tokens are issued for bound challenges only, and every other request for one is refused. -/
structure TokensBound (v : KeyView κ Key) (p : Platform κ) (t : Tracked κ) : Prop where
  issues : ∀ r : Request, ∀ h ∈ issued t.state (r.serve p t.state).2.2,
    (∃ size, r = .getPlatformToken h size) ∧ t.Bound v p h
  refuses : ∀ h size, ¬ t.Bound v p h →
    (delegatedAttestGetPlatformToken p h size t.state).1 ≠ psaSuccess ∧
      (delegatedAttestGetPlatformToken p h size t.state).2.1 = [] ∧
      issued t.state (delegatedAttestGetPlatformToken p h size t.state).2.2 = []

theorem Inv.bound {t : Tracked κ} (h : Inv v t) {k : Key} {hash : List UInt8}
    (hreq : t.state.dakRequested = true)
    (hk : v.keyOf t.state.services t.state.dakKeyId = some k)
    (hlen : hash.length = p.psaHashLength t.state.dakPubHashAlgo)
    (hh : hash = v.hash t.state.dakPubHashAlgo (v.publicPart k)) : t.Bound v p hash := by
  match hl : t.last with
  | none => exact absurd (hreq.symm.trans (h.fresh hl)) nofun
  | some g =>
    obtain ⟨ha, hg⟩ := h.granted g hl
    obtain ⟨hid, he⟩ := hg k hk
    exact ⟨g, k, hl, hid ▸ hk, he, ha ▸ hlen, ha ▸ hh⟩

theorem Goes.issued_call (h : Goes v s s') (hash : List UInt8) (size : Nat) :
    issued s (s'.call p (.initialAttestGetToken hash size)).2 = [hash] := by
  obtain ⟨cs, hcs, hq⟩ := h.calls
  have hi := h.issued_eq
  unfold issued at hi ⊢
  rw [hcs, List.drop_left] at hi
  show ((s'.calls ++ [_]).drop s.calls.length).filterMap Call.challenge = [hash]
  rw [hcs, List.append_assoc, List.drop_left, List.filterMap_append, hi]
  rfl

/-- After any requests, whatever calls fail, tokens are bound to the key handed out last. -/
theorem run_tokensBound (hv : v.Sound p.services) (services : κ) (reqs : List Request) :
    TokensBound v p (run p services reqs) := by
  have hi := inv_run hv services reqs
  generalize run p services reqs = t at hi
  constructor
  · intro r h hm
    cases r with
    | getDelegatedKey slots c b n a =>
      have hr := delegatedAttestGetDelegatedKey_getsKey hv slots c b n a hi.known
      change h ∈ issued t.state (delegatedAttestGetDelegatedKey p slots c b n a t.state).2.2 at hm
      generalize delegatedAttestGetDelegatedKey p slots c b n a t.state = out at hr hm
      cases hr with
      | fails hne hg hid => exact absurd (hg.issued_eq ▸ hm) List.not_mem_nil
      | @hands s' k hg hk => exact absurd (hg.issued_eq ▸ (hm : h ∈ issued t.state s')) List.not_mem_nil
    | getPlatformToken hash size =>
      have hr := delegatedAttestGetPlatformToken_getsToken (s := t.state) hv hash size
      change h ∈ issued t.state (delegatedAttestGetPlatformToken p hash size t.state).2.2 at hm
      generalize delegatedAttestGetPlatformToken p hash size t.state = out at hr hm
      cases hr with
      | refused hne hg hid => exact absurd (hg.issued_eq ▸ hm) List.not_mem_nil
      | issues hreq hg hid hk hlen hh hr =>
        rw [hr, hg.issued_call] at hm
        obtain rfl := List.mem_singleton.mp hm
        exact ⟨⟨size, rfl⟩, hi.bound hreq hk hlen hh⟩
  · intro h size hb
    have hr := delegatedAttestGetPlatformToken_getsToken (s := t.state) hv h size
    generalize delegatedAttestGetPlatformToken p h size t.state = out at hr
    cases hr with
    | refused hne hg hid => exact ⟨hne, rfl, hg.issued_eq⟩
    | issues hreq hg hid hk hlen hh hr => exact absurd (hi.bound hreq hk hlen hh) hb

/-! ## A service with room for one key -/

/-- The number of keys there have been, and whether the newest is still there. -/
structure OneKey where
  count : Nat
  live : Bool

/-- The generator of P-256, which is the public part of the private key 1. -/
def generatorP256 : List UInt8 :=
  [0x04, 0x6b, 0x17, 0xd1, 0xf2, 0xe1, 0x2c, 0x42, 0x47, 0xf8, 0xbc, 0xe6, 0xe5, 0x63,
    0xa4, 0x40, 0xf2, 0x77, 0x03, 0x7d, 0x81, 0x2d, 0xeb, 0x33, 0xa0, 0xf4, 0xa1, 0x39,
    0x45, 0xd8, 0x98, 0xc2, 0x96, 0x4f, 0xe3, 0x42, 0xe2, 0xfe, 0x1a, 0x7f, 0x9b, 0x8e,
    0xe7, 0xeb, 0x4a, 0x7c, 0x0f, 0x9e, 0x16, 0x2b, 0xce, 0x33, 0x57, 0x6b, 0x31, 0x5e,
    0xce, 0xcb, 0xb6, 0x40, 0x68, 0x37, 0xbf, 0x51, 0xf5]

/-- SHA-256 of it. -/
def generatorHash : List UInt8 :=
  [0x69, 0x8b, 0xea, 0x63, 0xdc, 0x44, 0xa3, 0x44, 0x66, 0x3f, 0xf1, 0x42, 0x9a, 0xea,
    0x10, 0x84, 0x2d, 0xf2, 0x7b, 0x6b, 0x99, 0x1e, 0xf2, 0x58, 0x66, 0xb2, 0xc6, 0xc0,
    0x2c, 0xdc, 0xc5, 0xbe]

def OneKey.keyOf (st : OneKey) (id : Nat) : Option Unit :=
  if st.live ∧ id = st.count ∧ id ≠ psaKeyIdNull then some () else none

def oneKeyView : KeyView OneKey Unit where
  keyOf := OneKey.keyOf
  Dead st id := id ≤ st.count ∧ st.keyOf id = none
  exported _ := List.replicate 31 0 ++ [1]
  publicPart _ := generatorP256
  hash _ _ := generatorHash

def oneKeyServices : Services OneKey
  | .destroyKey id, st =>
    if st.keyOf id = some () then (⟨psaSuccess, [], none⟩, { st with live := false })
    else (⟨psaErrorInvalidHandle, [], none⟩, st)
  | .keyDerivationOutputKey _, st =>
    (⟨psaSuccess, [], some (st.count + 1)⟩, ⟨st.count + 1, true⟩)
  | .exportKey id dataSize, st =>
    if st.keyOf id = some () ∧ 32 ≤ dataSize then
      (⟨psaSuccess, List.replicate 31 0 ++ [1], none⟩, st)
    else (⟨psaErrorInvalidHandle, [], none⟩, st)
  | .exportPublicKey id _, st =>
    if st.keyOf id = some () then (⟨psaSuccess, generatorP256, none⟩, st)
    else (⟨psaErrorInvalidHandle, [], none⟩, st)
  | .hashCompare _ _ hash, st =>
    if hash = generatorHash then (⟨psaSuccess, [], none⟩, st)
    else (⟨psaErrorInvalidArgument, [], none⟩, st)
  | .initialAttestGetToken authChallenge tokenBufSize, st =>
    (⟨psaSuccess, authChallenge.take tokenBufSize, none⟩, st)
  | _, st => (⟨psaSuccess, [], none⟩, st)

theorem OneKey.keyOf_eq_some {st : OneKey} {id : Nat} {k : Unit} :
    st.keyOf id = some k ↔ st.live = true ∧ id = st.count ∧ id ≠ psaKeyIdNull := by
  unfold OneKey.keyOf
  split_ifs with h
  · exact iff_of_true rfl h
  · exact iff_of_false nofun h

theorem OneKey.keyOf_eq_none {st : OneKey} {id : Nat} :
    st.keyOf id = none ↔ ¬ (st.live = true ∧ id = st.count ∧ id ≠ psaKeyIdNull) := by
  unfold OneKey.keyOf
  split_ifs with h
  · exact iff_of_false nofun (not_not_intro h)
  · exact iff_of_true rfl h

theorem oneKey_keeps (c : Call) (st : OneKey) : oneKeyView.Keeps st (oneKeyServices c st).2 := by
  have hid : oneKeyView.Keeps st st := ⟨fun _ h => h, fun _ _ h => .inl h⟩
  cases c with
  | destroyKey id =>
    unfold oneKeyServices
    dsimp only
    split_ifs with hk
    · have hnone : ∀ id', OneKey.keyOf ⟨st.count, false⟩ id' = none := fun _ => rfl
      exact ⟨fun id' h => ⟨h.1, hnone id'⟩, fun id' k h =>
        .inr ⟨(OneKey.keyOf_eq_some.mp h).2.1.le, hnone id'⟩⟩
    · exact hid
  | keyDerivationOutputKey attributes =>
    -- the ids so far are not that of the new key
    have hold : ∀ id ≤ st.count, OneKey.keyOf ⟨st.count + 1, true⟩ id = none := fun id hle =>
      OneKey.keyOf_eq_none.mpr fun h => absurd (h.2.1 ▸ hle) (Nat.not_succ_le_self _)
    exact ⟨fun id h => ⟨h.1.trans (Nat.le_succ _), hold id h.1⟩, fun id k h =>
      have hle := (OneKey.keyOf_eq_some.mp h).2.1.le
      .inr ⟨hle.trans (Nat.le_succ _), hold id hle⟩⟩
  | exportKey id n =>
    unfold oneKeyServices
    dsimp only
    split_ifs <;> exact hid
  | exportPublicKey id n =>
    unfold oneKeyServices
    dsimp only
    split_ifs <;> exact hid
  | hashCompare alg input hash =>
    unfold oneKeyServices
    dsimp only
    split_ifs <;> exact hid
  | _ => exact hid

theorem invalidHandle_ne : psaErrorInvalidHandle ≠ psaSuccess := by decide

theorem oneKey_sound : oneKeyView.Sound oneKeyServices where
  keeps := oneKey_keeps
  null_dead st := ⟨Nat.zero_le _, if_neg fun hn => hn.2.2 rfl⟩
  dead_not_live st id h := h.2
  destroyKey st id k hk := by
    have hle : id ≤ st.count := (OneKey.keyOf_eq_some.mp hk).2.1.le
    unfold oneKeyServices
    dsimp only
    rw [if_pos (show st.keyOf id = some () from hk)]
    exact ⟨rfl, hle, rfl⟩
  outputKey st attributes _ :=
    ⟨st.count + 1, (), rfl, OneKey.keyOf_eq_some.mpr ⟨rfl, rfl, Nat.succ_ne_zero _⟩⟩
  outputKey_fails st attributes h := absurd rfl h
  exportKey st id n h := by
    unfold oneKeyServices at h ⊢
    dsimp only at h ⊢
    split_ifs at h ⊢ with hk
    · exact ⟨(), hk.1, rfl⟩
    · exact absurd h invalidHandle_ne
  exportPublicKey st id n h := by
    unfold oneKeyServices at h ⊢
    dsimp only at h ⊢
    split_ifs at h ⊢ with hk
    · exact ⟨(), hk, rfl⟩
    · exact absurd h invalidHandle_ne
  hashCompare st alg input hash h := by
    unfold oneKeyServices at h
    dsimp only at h
    split_ifs at h with hh
    · exact hh
    · exact absurd h invalidArgument_ne
  abort _ _ _ _ _ _ _ _ _ := rfl

def oneKeyPlatform : Platform OneKey where
  services := oneKeyServices
  psaHashLength _ := 32
  encode items := List.replicate items.length 0
  tfmAttestBootRecordsMaxSize := 1024
  psaInitialAttestTokenMaxSize := 1024

/-- A P-256 key with SHA-256. -/
def requestP256 : Request := .getDelegatedKey growingSlots 0x12 256 66 psaAlgSha256

theorem run_tokensBound_issues :
    TokensBound oneKeyView oneKeyPlatform (run oneKeyPlatform ⟨0, false⟩ [requestP256]) ∧
      issued (run oneKeyPlatform ⟨0, false⟩ [requestP256]).state
        ((Request.getPlatformToken generatorHash 1024).serve oneKeyPlatform
          (run oneKeyPlatform ⟨0, false⟩ [requestP256]).state).2.2 = [generatorHash] :=
  ⟨run_tokensBound (p := oneKeyPlatform) oneKey_sound (OneKey.mk 0 false) [requestP256],
    by decide +kernel⟩

end DelegatedAttest
