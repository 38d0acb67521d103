import TfmExtras.Etss.NewestBlock

/-! The flash contents that a loss of power leaves of an update: the old filesystem until the last
byte that counts of the next header is programmed, and the new one from then on. -/

namespace Etss
open NorFlash NorFlash.Flash FlashM

variable {cfg : Config} {a s n : Nat} {strict : Prop} {P : Image → Prop} {c : Ctx}
  {fl fl₀ flS fl' : Flash} {hdr : MetadataBlockHeader} {o : Op} {st st' : Image}

/-! ## The block that is mounted -/

/-- The newest committed filesystem is the one that mounting takes. -/
theorem Newest.selectActive_eq (h : Newest cfg fl a)
    (he : cfg.eraseVal = 0x00 ∨ cfg.eraseVal = 0xFF) : selectActive cfg fl = .ok a := by
  have hle := h.le
  have hread := h.valid.readHeader_eq
  cases ho : readHeader cfg fl (otherMetaBlock a) with
  | none => exact selectActive_of_only hle hread ho
  | some hMeta =>
    have hnext := countsLater_next he hMeta.activeSwapCount
    rw [← h.newer hMeta ho] at hnext
    unfold selectActive metadataBlock0 metadataBlock1
    obtain rfl | rfl : a = 0 ∨ a = 1 := by omega
    · rw [hread, show readHeader cfg fl 1 = some hMeta from ho]
      dsimp only
      rw [mblockLatestMetaBlock_eq, if_neg hnext.2]
    · rw [hread, show readHeader cfg fl 0 = some hMeta from ho]
      dsimp only
      rw [mblockLatestMetaBlock_eq, if_pos hnext.1]

theorem Committed.mountable (h : Committed cfg fl a)
    (he : cfg.eraseVal = 0x00 ∨ cfg.eraseVal = 0xFF) : Mountable cfg a fl :=
  ⟨h.accepted, h.le, h.toNewest.selectActive_eq he, h.valid, h.wf⟩

/-! ## A header that is written in part -/

/-- Up to the swap count, the header is not valid. -/
theorem readHeader_torn_none (hc : Clean (range s 0 8) flS) (hv : hdr.fsVersion = supportedVersion)
    (hn : n ≤ 6) : readHeader cfg (flS.write s 0 (hdr.encode.take n)) s = none := by
  have hlen : (hdr.encode.take n).length = n := by
    rw [List.length_take, hdr.encode_length]
    omega
  have hclean : Clean (range s n 8) (flS.write s 0 (hdr.encode.take n)) := by
    refine (onlyIn_write flS s 0 _).clean (hc.mono fun b o hw => ⟨hw.1, Nat.zero_le _, hw.2.2⟩) ?_
    rintro b o ⟨_, h₁, _⟩ ⟨_, _, h₂⟩
    omega
  by_cases h4 : n ≤ 4
  · exact readHeader_blank (hclean.mono fun _ _ hw => ⟨hw.1, h4.trans hw.2.1, hw.2.2⟩)
  have hver : (image cfg (flS.write s 0 (hdr.encode.take n)) s).header.fsVersion =
      supportedVersion := by
    rw [← hv]
    show ((flS.write s 0 (hdr.encode.take n)).read cfg.eraseVal s 0 8).getD 4 0 = _
    rw [read_getD _ _ (by decide), byte, cell_write, if_pos ⟨rfl, by omega, by omega⟩]
    show (hdr.encode.take n).getD 4 0 = hdr.encode.getD 4 0
    rw [List.getD_eq_getElem?_getD, List.getElem?_take_of_lt (by omega),
      ← List.getD_eq_getElem?_getD]
  have hswap : (image cfg (flS.write s 0 (hdr.encode.take n)) s).header.activeSwapCount =
      cfg.eraseVal := by
    show ((flS.write s 0 (hdr.encode.take n)).read cfg.eraseVal s 0 8).getD 6 0 = _
    rw [read_getD _ _ (by decide)]
    exact hclean.byte ⟨rfl, by omega, by decide⟩
  unfold readHeader headerCheck
  rw [hver, hswap]
  have hcount : mblockValidateSwapCount cfg cfg.eraseVal = .error .genericError := if_pos rfl
  rw [hcount]
  rfl

/-- From the swap count on, only the padding can differ. -/
theorem header_torn (hs : hdr.scratchDblock < 2 ^ 32) (flS : Flash) (hn : 7 ≤ n) :
    ∃ pad, (image cfg (flS.write s 0 (hdr.encode.take n)) s).header = { hdr with pad := pad } := by
  by_cases h8 : 8 ≤ n
  · refine ⟨hdr.pad, ?_⟩
    rw [List.take_of_length_le (hdr.encode_length.trans_le h8)]
    exact (inForce_headerWritten (a := s) hs).header
  obtain rfl : n = 7 := by omega
  have htake : hdr.encode.take 7 = Bytes.leBytes 4 hdr.scratchDblock ++
      [hdr.fsVersion, hdr.metadataXor, hdr.activeSwapCount] := by
    unfold MetadataBlockHeader.encode
    rw [List.take_append, Bytes.leBytes_length, List.take_of_length_le (by simp)]
    rfl
  have hlen : (hdr.encode.take 7).length = 7 := by
    rw [List.length_take, hdr.encode_length]
    rfl
  have hfirst := read_write_self flS cfg.eraseVal s 0 (hdr.encode.take 7)
  rw [hlen] at hfirst
  obtain ⟨pad, hpad⟩ : ∃ pad, (flS.write s 0 (hdr.encode.take 7)).read cfg.eraseVal s 7 1 =
    [pad] := ⟨_, rfl⟩
  refine ⟨pad, ?_⟩
  have hread : (flS.write s 0 (hdr.encode.take 7)).read cfg.eraseVal s 0 (7 + 1) =
      ({ hdr with pad := pad } : MetadataBlockHeader).encode := by
    rw [read_append, hfirst, Nat.zero_add, hpad, htake, List.append_assoc]
    rfl
  have hs' : ({ hdr with pad := pad } : MetadataBlockHeader).scratchDblock < 2 ^ 32 := hs
  exact (congrArg MetadataBlockHeader.decode hread).trans (MetadataBlockHeader.decode_encode hs')

theorem inForce_torn (hs : hdr.scratchDblock < 2 ^ 32) (flS : Flash) (hn : 7 ≤ n) :
    ∃ pad, InForce cfg a s { hdr with pad := pad } flS (flS.write s 0 (hdr.encode.take n)) := by
  have hheader : ∃ pad, (image cfg (flS.write s 0 (hdr.encode.take n)) s).header =
      { hdr with pad := pad } := header_torn hs flS hn
  obtain ⟨pad, hpad⟩ := hheader
  refine ⟨pad, hpad, (onlyIn_write flS s 0 _).mono fun b o hw => .inl ⟨hw.1, ?_⟩⟩
  have hlt := hw.2.2
  rw [List.length_take, hdr.encode_length] at hlt
  omega

/-! ## An update, cut at any point -/

/-- The newest filesystem is the one before the update, or one that the update commits. -/
def AtOnce (cfg : Config) (fl₀ : Flash) (a s : Nat) (P : Image → Prop) (fl : Flash) : Prop :=
  (Committed cfg fl a ∧ (image cfg fl₀ a).Same cfg (image cfg fl a)) ∨
    (Committed cfg fl s ∧ ∃ st, P st ∧ st.Same cfg (image cfg fl s))

namespace Before
variable (h : Before cfg fl₀ a s)
include h

/-- While the next header is written, and after that, until the old one is erased. -/
theorem torn_header (hst : Staged cfg fl₀ a s P flS hdr) (hP : ∀ st, P st → st.Wf cfg s) (n : Nat) :
    AtOnce cfg fl₀ a s P (flS.write s 0 (hdr.encode.take n)) := by
  have hwf := hP _ hst.step
  have hclean := h.clean_of_staged hst.only
  have hwrite : OnlyIn (fun b _ => b = s) flS (flS.write s 0 (hdr.encode.take n)) :=
    (onlyIn_write flS s 0 _).mono fun _ _ hw => hw.1
  by_cases hn : n ≤ 6
  · have hnone : readHeader cfg (flS.write s 0 (hdr.encode.take n)) s = none :=
      readHeader_torn_none hclean hwf.version hn
    refine .inl (h.of_onlyIn ((hst.only.mono h.stageRegion_unused).trans
      (hwrite.mono fun b o hb => .inl (hb.trans h.other))) ?_)
    rw [← h.other]
    exact hnone
  · have hforce : ∃ pad, InForce cfg a s { hdr with pad := pad } flS
        (flS.write s 0 (hdr.encode.take n)) := inForce_torn hst.scratch_lt flS (by omega)
    obtain ⟨pad, hin⟩ := hforce
    -- the padding is no part of the filesystem
    have hsame : (stagedImage cfg flS s hdr).Same cfg
        (stagedImage cfg flS s { hdr with pad := pad }) :=
      ⟨rfl, rfl, fun _ _ => rfl, fun _ _ => rfl, fun _ _ _ _ _ => rfl⟩
    have hst' : Staged cfg fl₀ a s ((stagedImage cfg flS s hdr).Same cfg) flS
        { hdr with pad := pad } := ⟨hst.only, hst.swap, hst.xor, hst.scratch_lt, hsame⟩
    obtain ⟨hnew, hsame'⟩ := h.inForce hst' (hsame.wf h.accepted hwf) hin
      (.inr (readHeader_congr hwrite fun _ => h.ne.symm))
    exact .inr ⟨hnew, _, hst.step, hsame.trans hsame'⟩

theorem atOnce_erased (hst : Staged cfg fl₀ a s P flS hdr) (hP : ∀ st, P st → st.Wf cfg s) :
    AtOnce cfg fl₀ a s P ((headerWritten flS s hdr).erase a) := by
  obtain ⟨hnew, hsame⟩ := h.inForce_erased hst (hP _ hst.step)
  exact .inr ⟨hnew, _, hst.step, hsame⟩

theorem atOnce_committed (hst : Staged cfg fl₀ a s P flS hdr) (hP : ∀ st, P st → st.Wf cfg s) :
    AtOnce cfg fl₀ a s P (committed cfg flS a s hdr) := by
  have hwf := hP _ hst.step
  have hin : InForce cfg a s hdr flS (committed cfg flS a s hdr) :=
    inForce_committed h.s_le h.ne (scratch_ge_of_staged hwf) hst.scratch_lt
  obtain ⟨hnew, hsame⟩ := h.inForce hst hwf hin (.inl (readHeader_erased
    ((clean_committed h.accepted flS a s hdr).mono fun _ _ hw => .inl hw.1)))
  exact .inr ⟨hnew, _, hst.step, hsame⟩

/-- An operation of the update, done or cut, leaves the flash as it is or as an update leaves it. -/
theorem atOnce (hP : ∀ st, P st → st.Wf cfg s) (ho : UpdateOp cfg fl₀ a s strict P fl o) :
    (fl.apply o = fl ∨ AtOnce cfg fl₀ a s P (fl.apply o)) ∧
      ∀ n, fl.torn n o = fl ∨ AtOnce cfg fl₀ a s P (fl.torn n o) := by
  have hold : ∀ {fl'}, OnlyIn (stageRegion cfg s (image cfg fl₀ a).header.scratchDblock) fl₀ fl' →
      AtOnce cfg fl₀ a s P fl' := fun hf => .inl (h.staged hf)
  cases ho with
  | read _ _ => exact ⟨.inl rfl, fun _ => .inl rfl⟩
  | stage only op =>
    refine ⟨.inr (hold (stageOp_only only op)), fun n => ?_⟩
    cases o with
    | write b off data =>
      refine .inr (hold (only.trans
        ((onlyIn_write fl b off (data.take n)).mono fun b' o' hw => ?_)))
      obtain ⟨rfl, h₁, _⟩ := hw
      exact op.target.imp (fun ht => ⟨ht.1, ht.2.trans h₁⟩) id
    | init => exact .inl rfl
    | read _ _ _ => exact .inl rfl
    | flush _ => exact .inl rfl
    | erase _ => exact .inl rfl
  | commit staged op =>
    cases op with
    | header =>
      have hw := h.torn_header staged hP 8
      rw [List.take_of_length_le (MetadataBlockHeader.encode_length _).le] at hw
      exact ⟨.inr hw, fun n => .inr (h.torn_header staged hP n)⟩
    | flush => exact ⟨.inl rfl, fun _ => .inl rfl⟩
    | eraseOld => exact ⟨.inr (h.atOnce_erased staged hP), fun _ => .inl rfl⟩
    | eraseScratch h2 =>
      have hc := h.atOnce_committed staged hP
      unfold committed at hc
      rw [if_pos h2] at hc
      exact ⟨.inr hc, fun _ => .inl rfl⟩

end Before

end Etss
