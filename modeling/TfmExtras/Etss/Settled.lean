import TfmExtras.Etss.Assets

/-! The files as a mount leaves them: a pending deletion is made, which can move bytes of the other
files. -/

namespace Etss
open NorFlash NorFlash.Flash FlashM

variable {cfg : Config} {st st' : Image} {a s d i : Nat} {fid : Fid} {bs : List UInt8}
  {c' : Ctx} {fl fl' : Flash}

/-- The content of file `i` once a pending deletion is made. -/
def Image.SettlesTo (cfg : Config) (st : Image) (i : Nat) (bs : List UInt8) : Prop :=
  (∀ d e, st.Pending cfg d → st.SharesWith cfg d e → (st.files i).lblock = (st.files d).lblock →
    st.contentAhead cfg d e i = bs) ∧
  ((∀ d, st.Pending cfg d → st.SharesIndex cfg d → (st.files i).lblock ≠ (st.files d).lblock) →
    st.content i = bs)

/-- Every file of `st` is in `st₀` once its pending deletion is made. A file that is marked counts
as deleted. -/
def Image.Provides (cfg : Config) (st₀ st : Image) : Prop :=
  ∀ i < cfg.maxNumFiles, (st.files i).id ≠ 0 → ¬ st.Marked i →
    ∃ j < cfg.maxNumFiles, (st₀.files j).id = (st.files i).id ∧ ¬ st₀.Marked j ∧
      st₀.SettlesTo cfg j (st.content i)

theorem Image.Closed.settlesTo_iff (h : st.Closed cfg) : st.SettlesTo cfg i bs ↔
    st.content i = bs := by
  have hno : ∀ d, ¬ st.Pending cfg d := fun d hd => hd.not_closed h
  constructor
  · intro hs
    exact hs.2 fun d hd => absurd hd (hno d)
  · intro hc
    exact ⟨fun d e hd => absurd hd (hno d), fun _ => hc⟩

/-- The deletion leaves the contents that the others settle to. -/
theorem DeleteStep.settlesTo_iff (h : DeleteStep cfg s st d st') (hw : st.Wf cfg a)
    (hp : st.Pending cfg d) (hi : i < cfg.maxNumFiles) (hne : i ≠ d) (hv : (st.files i).id ≠ 0) :
    st.SettlesTo cfg i bs ↔ st'.content i = bs := by
  by_cases hsh : st.SharesIndex cfg d ∧ (st.files i).lblock = (st.files d).lblock
  · obtain ⟨hsh, hl⟩ := hsh
    have hahead : ∀ e, st.SharesWith cfg d e → st'.content i = st.contentAhead cfg d e i :=
      fun e he => h.content_ahead hw hp.lt hp.valid he (Image.mem_filesIn.mpr ⟨hi, hv, hl⟩) hne
    constructor
    · intro hs
      obtain ⟨e, he⟩ := hsh.exists_with
      rw [hahead e he]
      exact hs.1 d e hp he hl
    · intro hc
      refine ⟨fun d' e hp' he _ => ?_, fun hall => absurd hl (hall d hp hsh)⟩
      obtain rfl := hp.eq hp'
      rw [← hahead e he]
      exact hc
  · have hcon : st'.content i = st.content i := by
      by_cases hl : (st.files i).lblock = (st.files d).lblock
      · exact h.content hw hp.lt hp.valid (fun hs => hsh ⟨hs, hl⟩) hi hne hv
      · exact h.content_other hw hp.lt hi hv hl
    rw [hcon]
    constructor
    · intro hs
      refine hs.2 fun d' hp' hs' hl => hsh ?_
      obtain rfl := hp.eq hp'
      exact ⟨hs', hl⟩
    · intro hc
      refine ⟨fun d' e hp' he hl => absurd ?_ hsh, fun _ => hc⟩
      obtain rfl := hp.eq hp'
      exact ⟨he.sharesIndex, hl⟩

/-! ## Equal filesystems -/

namespace Image.Same
variable (h : st.Same cfg st')
include h

theorem pending_iff : st'.Pending cfg d ↔ st.Pending cfg d :=
  ⟨h.symm.pending, h.pending⟩

theorem byteAhead {l : Nat} (hl : l < numActiveDblocks cfg) {n o : Nat}
    (ho : (st.blocks l).dataStart ≤ o) : st'.byteAhead cfg l n o = st.byteAhead cfg l n o := by
  unfold Image.byteAhead
  rw [h.dataEnd hl]
  split_ifs with hlt
  · exact h.data l hl _ (by omega) hlt
  · rfl

theorem contentAhead (hw : st.Wf cfg a) (hi : i < cfg.maxNumFiles) (hv : (st.files i).id ≠ 0)
    (hd : d < cfg.maxNumFiles) {e : Nat} (he : e < cfg.maxNumFiles)
    (hl : (st.files i).lblock = (st.files d).lblock) :
    st'.contentAhead cfg d e i = st.contentAhead cfg d e i := by
  obtain ⟨hlb, hcur, _⟩ := hw.sizes i hi hv
  obtain ⟨hlo, hhi⟩ := hw.inside hi hv
  rw [hl] at hlb hlo hhi
  unfold Image.contentAhead
  rw [h.files i hi, h.files d hd, h.files e he]
  refine List.map_congr_left fun k hk => ?_
  rw [List.mem_range] at hk
  rw [h.byteAhead hlb (by omega), h.data _ hlb _ (by omega) (by omega)]

theorem settlesTo_iff (hw : st.Wf cfg a) (hi : i < cfg.maxNumFiles) (hv : (st.files i).id ≠ 0) :
    st'.SettlesTo cfg i bs ↔ st.SettlesTo cfg i bs := by
  unfold Image.SettlesTo
  refine and_congr ?_ ?_
  · refine forall_congr' fun d => forall_congr' fun e => ?_
    rw [h.pending_iff]
    refine forall_congr' fun hp => ?_
    rw [h.sharesWith_iff hp.lt, h.files i hi, h.files d hp.lt]
    refine forall_congr' fun he => forall_congr' fun hl => ?_
    rw [h.contentAhead hw hi hv hp.lt he.lt hl]
  · rw [h.content hw hi hv]
    refine imp_congr_left (forall_congr' fun d => ?_)
    rw [h.pending_iff]
    refine forall_congr' fun hp => ?_
    rw [h.sharesIndex_iff hp.lt, h.files i hi, h.files d hp.lt]

end Image.Same

/-! ## The mounted filesystem -/

/-- A mount finds a file with its content exactly when an entry that is not marked settles to it. -/
theorem MountSpec.content_iff (h : MountSpec cfg a fl c' fl') (hw : (image cfg fl a).Wf cfg a)
    (hacc : cfg.Accepted)
    (hcp : (image cfg fl a).Closed cfg ∨ ∃ d, (image cfg fl a).Pending cfg d) (hf : fid ≠ 0) :
    ((mountedImage cfg c' fl').fileMap cfg fid).map Image.View.content = some bs ↔
      ∃ j < cfg.maxNumFiles, ((image cfg fl a).files j).id = fid ∧ ¬ (image cfg fl a).Marked j ∧
        (image cfg fl a).SettlesTo cfg j bs := by
  rcases hcp with hcl | ⟨d, hp⟩
  · rw [(h.closed hcl).fileMap hw]
    constructor
    · intro hm
      obtain ⟨v, hv, rfl⟩ := Option.map_eq_some_iff.mp hm
      rcases (image cfg fl a).fileMap_cases cfg fid with ⟨hn, -⟩ | ⟨j, hj, rfl, h0⟩
      · rw [hn] at hv
        cases hv
      · rw [hcl.fileMap_some hj h0] at hv
        cases hv
        exact ⟨j, hj, rfl, hcl.unmarked j hj, hcl.settlesTo_iff.mpr rfl⟩
    · rintro ⟨j, hj, rfl, _, hs⟩
      rw [hcl.fileMap_some hj hf, ← hcl.settlesTo_iff.mp hs]
      rfl
  · obtain ⟨st₁, st', hsame, hstep, hsame'⟩ := h.pending d hp
    have hp₁ := hsame.pending hp
    have hw₁ := hsame.wf hacc hw
    rw [hsame'.fileMap (hstep.wf hw₁ hp₁.lt hp₁.valid hacc)]
    have hid : ∀ j, j < cfg.maxNumFiles →
        (st₁.files j).id = ((image cfg fl a).files j).id := fun j hj => by rw [hsame.files j hj]
    constructor
    · intro hm
      obtain ⟨v, hv, rfl⟩ := Option.map_eq_some_iff.mp hm
      rcases st'.fileMap_cases cfg fid with ⟨hn, -⟩ | ⟨j, hj, hjid, -⟩
      · rw [hn] at hv
        cases hv
      · obtain ⟨hne, hv₁⟩ := hstep.id_ne hj (hjid ▸ hf)
        have hjid₁ : (st₁.files j).id = fid := by
          rw [hstep.files_ne hj hne, Image.shifted_id] at hjid
          exact hjid
        have hmap := hstep.fileMap_of_ne hp₁.unique hj hne hv₁
        rw [hjid₁, hv] at hmap
        cases hmap
        refine ⟨j, hj, (hid j hj).symm.trans hjid₁, fun hmark => hne ((hp.marked j hj).mp hmark),
          ?_⟩
        rw [← hsame.settlesTo_iff hw hj (hid j hj ▸ hv₁)]
        exact (hstep.settlesTo_iff hw₁ hp₁ hj hne hv₁).mpr rfl
    · rintro ⟨j, hj, hjid, hmark, hs⟩
      have hne : j ≠ d := fun he => hmark ((hp.marked j hj).mpr he)
      have hv : ((image cfg fl a).files j).id ≠ 0 := hjid.symm ▸ hf
      have hv₁ : (st₁.files j).id ≠ 0 := (hid j hj).symm ▸ hv
      have hs₁ := (hsame.settlesTo_iff hw hj hv).mpr hs
      have hmap := hstep.fileMap_of_ne hp₁.unique hj hne hv₁
      rw [hid j hj, hjid] at hmap
      rw [hmap, ← (hstep.settlesTo_iff hw₁ hp₁ hj hne hv₁).mp hs₁]
      rfl

end Etss
