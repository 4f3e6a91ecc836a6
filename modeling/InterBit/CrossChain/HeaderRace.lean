import InterBit.CrossChain.LightClient
import InterBit.Lib.Trace
import Mathlib.Data.List.Chain

/-!
# Header updates that race

`update_header` checks a header under the read lock and appends it under the write lock, and does
not look again at what is there in between. Here any number of calls take their sections in any
order. `chained_iff`: the trusted headers stay a chain in such a run exactly if no call appends its
header to another last header than the one it has been checked against, unless it follows that one,
too; and a height must not have wrapped around, which a build without overflow checks lets it do.
-/

namespace InterBit.CrossChain

open InterBit.Lib

/-- A light client and the calls of `update_header` that are between their sections: the header that
they have checked, and the last header that they have seen. -/
structure UpdateRace where
  client : LightClient
  pending : List (BlockHeader × Option BlockHeader)

/-- A section of a call. -/
inductive UpdateSection where
  | check (headerData : List UInt8)
  | append (call : Nat)

namespace UpdateRace

/-- Before the first call. -/
def new (chainInfo : ChainInfo) (validatorSets : AList fun _ : U64 => ValidatorSet) : UpdateRace :=
  ⟨.new chainInfo validatorSets, []⟩

/-- One section. -/
def next (env : LightEnv) (race : UpdateRace) : UpdateSection → UpdateRace
  | .check headerData =>
    match race.client.check env headerData with
    | some (.ok header) =>
      { race with pending := race.pending ++ [(header, race.client.trustedHeaders.getLast?)] }
    | _ => race
  | .append call =>
    match race.pending[call]? with
    | some (header, _) => ⟨race.client.append header, race.pending.eraseIdx call⟩
    | none => race

end UpdateRace

/-- A header that comes right after another one. -/
def BlockHeader.Follows (env : LightEnv) (last header : BlockHeader) : Prop :=
  header.height.toNat = last.height.toNat + 1 ∧
    header.previousHash = hashHeader env.toKeccakEnv last

namespace LightClient

/-- The last hundred headers are a chain, and the sync state is at its end. -/
structure Chained (env : LightEnv) (client : LightClient) : Prop where
  length_le : client.trustedHeaders.length ≤ 100
  linked : client.trustedHeaders.IsChain (BlockHeader.Follows env)
  synced : ∀ last, client.trustedHeaders.getLast? = some last →
    client.syncState.latestHeight = last.height

theorem isChain_concat_iff {α : Type} {R : α → α → Prop} {l : List α} (h : l.IsChain R) (a : α) :
    (l ++ [a]).IsChain R ↔ ∀ last, l.getLast? = some last → R last a := by
  rw [List.isChain_append, and_iff_right h, and_iff_right (List.isChain_singleton a)]
  refine forall_congr' fun last => forall_congr' fun _ => ⟨fun hall => hall a rfl, ?_⟩
  rintro hlast _ ⟨⟩
  exact hlast

theorem getLast?_append (client : LightClient) (header : BlockHeader) :
    (client.append header).trustedHeaders.getLast? = some header := by
  unfold append
  dsimp only
  split
  next hlong =>
    rw [List.length_append, List.length_singleton] at hlong
    rw [List.tail_append_of_ne_nil (List.ne_nil_of_length_pos (by omega)), List.getLast?_concat]
  next => exact List.getLast?_concat

/-- Appending keeps the chain exactly if the header follows the last one. -/
theorem Chained.append_iff {env : LightEnv} {client : LightClient} (h : client.Chained env)
    (header : BlockHeader) : (client.append header).Chained env ↔
      ∀ last, client.trustedHeaders.getLast? = some last → last.Follows env header := by
  have hlinked : (client.append header).trustedHeaders.IsChain (BlockHeader.Follows env) ↔
      ∀ last, client.trustedHeaders.getLast? = some last → last.Follows env header := by
    unfold append
    dsimp only
    split
    next hlong =>
      rw [List.length_append, List.length_singleton] at hlong
      rw [List.tail_append_of_ne_nil (List.ne_nil_of_length_pos (by omega)),
        isChain_concat_iff h.linked.tail, List.getLast?_tail, if_neg (by omega)]
    next => exact isChain_concat_iff h.linked header
  rw [← hlinked]
  refine ⟨Chained.linked, fun hchain => ⟨?_, hchain, fun last hlast => ?_⟩⟩
  · have hle := h.length_le
    unfold append
    dsimp only
    split
    next =>
      rw [List.length_tail, List.length_append, List.length_singleton]
      omega
    next hshort => exact Nat.le_of_not_lt hshort
  · rw [getLast?_append] at hlast
    obtain rfl := Option.some.inj hlast
    rfl

end LightClient

namespace UpdateRace

/-- After the section, the trusted headers are a chain. -/
def StaysChained (env : LightEnv) (race : UpdateRace) (step : UpdateSection) : Prop :=
  (race.next env step).client.Chained env

/-- The last header is the one that a header has been checked against, and the height of the header
has not wrapped around; or there was none at the check, and the header follows what is there now. -/
def Fits (env : LightEnv) (client : LightClient) (header : BlockHeader) :
    Option BlockHeader → Prop
  | some seen => client.trustedHeaders.getLast? = some seen ∧ header.height ≠ 0
  | none => ∀ last, client.trustedHeaders.getLast? = some last → last.Follows env header

/-- A header that is appended still fits. -/
def Current (env : LightEnv) (race : UpdateRace) : UpdateSection → Prop
  | .check _ => True
  | .append call => ∀ header seen, race.pending[call]? = some (header, seen) →
    Fits env race.client header seen

/-- A call that has seen a last header has a header for it; and the last header has stayed the
same, or others have come after it. -/
def Checked (env : LightEnv) (race : UpdateRace) : Prop :=
  ∀ header last, (header, some last) ∈ race.pending →
    header.height = last.height + 1 ∧ header.previousHash = hashHeader env.toKeccakEnv last ∧
      ∃ current, race.client.trustedHeaders.getLast? = some current ∧
        (current = last ∨ last.height.toNat < current.height.toNat)

theorem toNat_following {last header : BlockHeader} (h : header.height = last.height + 1)
    (hne : header.height ≠ 0) : header.height.toNat = last.height.toNat + 1 := by
  have hlt := last.height.isLt
  have hpos : header.height.toNat ≠ 0 := fun hzero => hne (BitVec.eq_of_toNat_eq hzero)
  rw [h, BitVec.toNat_add] at hpos ⊢
  have hone : BitVec.toNat (1 : U64) = 1 := rfl
  rw [hone] at hpos ⊢
  omega

variable {race : UpdateRace} {env : LightEnv}

/-- A header that has been checked follows the current last header only if that is the one it has
been checked against. -/
theorem Checked.fits_iff (h : race.Checked env) {header : BlockHeader} {seen : Option BlockHeader}
    (hmem : (header, seen) ∈ race.pending) :
    Fits env race.client header seen ↔
      ∀ last, race.client.trustedHeaders.getLast? = some last → last.Follows env header := by
  cases seen with
  | none => exact Iff.rfl
  | some seen =>
    obtain ⟨hheight, hhash, current, hcurrent, hsince⟩ := h header seen hmem
    unfold Fits
    rw [hcurrent]
    constructor
    · rintro ⟨hsame, hne⟩ last hlast
      obtain rfl := Option.some.inj hsame
      obtain rfl := Option.some.inj hlast
      exact ⟨toNat_following hheight hne, hhash⟩
    · intro hfollows
      obtain ⟨hnumber, _⟩ := hfollows current rfl
      have hne : header.height ≠ 0 := by
        intro hzero
        rw [hzero] at hnumber
        exact absurd hnumber (Nat.succ_ne_zero _).symm
      have hseen := toNat_following hheight hne
      rcases hsince with rfl | hlater
      · exact ⟨rfl, hne⟩
      · omega

theorem next_append {call : Nat} {header : BlockHeader} {seen : Option BlockHeader}
    (hcall : race.pending[call]? = some (header, seen)) :
    race.next env (.append call) = ⟨race.client.append header, race.pending.eraseIdx call⟩ := by
  unfold next
  dsimp only
  rw [hcall]

theorem next_append_none {call : Nat} (hcall : race.pending[call]? = none) :
    race.next env (.append call) = race := by
  unfold next
  dsimp only
  rw [hcall]

/-- A check leaves the client as it is, and can only add a header that has been checked. -/
theorem next_check (env : LightEnv) (race : UpdateRace) (headerData : List UInt8) :
    race.next env (.check headerData) = race ∨
      ∃ header, race.client.verifyLink env header = some (.ok ()) ∧
        race.next env (.check headerData) = { race with
          pending := race.pending ++ [(header, race.client.trustedHeaders.getLast?)] } := by
  unfold next
  dsimp only
  split
  next header hcheck =>
    have hverified := (LightClient.check_eq_ok.mp hcheck).2
    exact .inr ⟨header, LightClient.verifyLink_of_verifyHeader hverified, rfl⟩
  next => exact .inl rfl

/-- The chain stays one exactly if a header that is appended still fits. -/
theorem stays_iff (h : race.client.Chained env) (hchecked : race.Checked env)
    (step : UpdateSection) :
    race.StaysChained env step ↔ race.Current env step := by
  unfold StaysChained
  cases step with
  | check headerData =>
    refine iff_of_true ?_ trivial
    rcases next_check env race headerData with heq | ⟨header, _, heq⟩
    · rw [heq]
      exact h
    · rw [heq]
      exact h
  | append call =>
    cases hcall : race.pending[call]? with
    | none =>
      rw [next_append_none hcall]
      exact iff_of_true h fun header seen hsome => nomatch hcall.symm.trans hsome
    | some pending =>
      obtain ⟨header, seen⟩ := pending
      rw [next_append hcall]
      refine (h.append_iff header).trans ?_
      rw [← hchecked.fits_iff (List.mem_of_getElem? hcall)]
      refine ⟨fun hfits header' seen' hcall' => ?_, fun hall => hall header seen hcall⟩
      obtain ⟨rfl, rfl⟩ := Prod.mk.inj (Option.some.inj (hcall.symm.trans hcall'))
      exact hfits

theorem Checked.next {env : LightEnv} {race : UpdateRace} (h : race.Checked env)
    {step : UpdateSection} (hcurrent : race.Current env step) :
    (race.next env step).Checked env := by
  cases step with
  | check headerData =>
    rcases next_check env race headerData with heq | ⟨header, hlink, heq⟩
    · rw [heq]
      exact h
    · rw [heq]
      intro header' seen hmem
      rcases List.mem_append.mp hmem with hold | hnew
      · exact h header' seen hold
      · obtain ⟨rfl, hlast⟩ := Prod.mk.inj (List.mem_singleton.mp hnew)
        obtain ⟨hheight, hhash⟩ := LightClient.verifyLink_some hlink hlast.symm
        exact ⟨hheight, hhash, seen, hlast.symm, .inl rfl⟩
  | append call =>
    cases hcall : race.pending[call]? with
    | none =>
      rw [next_append_none hcall]
      exact h
    | some pending =>
      obtain ⟨header, seen⟩ := pending
      -- The header that is appended is higher than the last one was.
      have hfollows := (h.fits_iff (List.mem_of_getElem? hcall)).mp (hcurrent header seen hcall)
      rw [next_append hcall]
      intro header' seen' hmem
      obtain ⟨hheight, hhash, current, hlast, hsince⟩ :=
        h header' seen' (List.mem_of_mem_eraseIdx hmem)
      refine ⟨hheight, hhash, header, race.client.getLast?_append header, .inr ?_⟩
      obtain ⟨hnumber, _⟩ := hfollows current hlast
      rcases hsince with rfl | hlater
      · omega
      · omega

/-- The trusted headers are a chain after every section exactly if every header that is appended
still fits. -/
theorem chained_iff (env : LightEnv) (chainInfo : ChainInfo)
    (validatorSets : AList fun _ : U64 => ValidatorSet) (sections : List UpdateSection) :
    Always (next env) (StaysChained env) (new chainInfo validatorSets) sections ↔
      Always (next env) (Current env) (new chainInfo validatorSets) sections := by
  refine always_iff (I := fun race => race.client.Chained env ∧ race.Checked env) ?_ ?_ ?_
  · refine ⟨⟨Nat.zero_le _, .nil, fun _ hlast => nomatch hlast⟩, fun header last hmem => ?_⟩
    exact absurd hmem List.not_mem_nil
  · rintro race step ⟨h, hchecked⟩ hcurrent
    exact ⟨(stays_iff h hchecked step).mpr hcurrent, hchecked.next hcurrent⟩
  · rintro race step ⟨h, hchecked⟩
    exact stays_iff h hchecked step

/-- Two first headers are checked, and then both are appended. -/
theorem chain_broken :
    ¬ Always (next (sampleLightEnv [sampleHeader 1 (Vector.replicate 32 0) []]))
      (StaysChained (sampleLightEnv [sampleHeader 1 (Vector.replicate 32 0) []]))
      (new ⟨1, .evm, .proofOfWork, 12⟩ ∅) [.check [0], .check [0], .append 0, .append 0] := by
  rintro ⟨_, _, _, hbroken, _⟩
  have hlinked := List.isChain_cons_cons.mp hbroken.linked
  exact absurd hlinked.1.1 (by decide +kernel)

end UpdateRace

end InterBit.CrossChain
