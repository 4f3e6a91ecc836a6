import InterBit.Security.KeyRules

/-!
# Keys in every interleaving

Any number of calls of the key manager, section by section in any order. A signature verifies under
the public key of its key (`verifies_of_run`), a key that a rotation has marked does not sign any
more (`silent_of_run`), and one share is the whole key, while the key that is recovered from it
never signs (`recovered_of_run`).
-/

namespace InterBit.Security

open InterBit.Lib InterBit.StateMachine

namespace KeyManager

open Sections

variable {ι : Type} {env : KeyEnv} {calls : ι → KeyCall} {i : ι} {keyId : H256}
  {verifies : List UInt8 → List UInt8 → List UInt8 → Prop}

/-- The calls from the start. -/
def begin (env : KeyEnv) (calls : ι → KeyCall) (manager : KeyManager) :
    Interleaved ι KeyManager KeyAnswer := ⟨manager, fun i => sections env (calls i)⟩

theorem keeping_begin (hcrypto : Cryptography env verifies) (hfresh : Fresh calls)
    {manager : KeyManager} (hsound : manager.Sound env)
    (habsent : ∀ i, manager.Absent (calls i).Draws) :
    (begin env calls manager).Keeping (Rely env calls) (fun i => Changes env (calls i))
      (fun i => Answered verifies (calls i)) fun _ => Exhausted env := by
  intro i
  refine ⟨_, ?_, ⟨habsent i, hsound⟩, sections_meets hcrypto hfresh i⟩
  rintro m m' ⟨hno, hm⟩ hrely
  exact ⟨stable_absent hfresh (fun _ h => h) _ _ hno hrely, stable_rely stable_sound _ _ hm hrely⟩

theorem rely_of_changes (calls : ι → KeyCall) (i j : ι) (before after : KeyManager) (h : i ≠ j)
    (hchanges : Changes env (calls j) before after) : Rely env calls i before after :=
  ⟨j, h.symm, hchanges⟩

variable [DecidableEq ι] {manager : KeyManager} {is : List ι}
  {c : Interleaved ι KeyManager KeyAnswer}

/-- Whatever the calls and however they interleave: a signature that is returned verifies under the
public key of the key, or the hardware wallet has made it. No call panics before a number of uses
overflows. -/
theorem verifies_of_run (hcrypto : Cryptography env verifies) (hfresh : Fresh calls)
    (hsound : manager.Sound env) (habsent : ∀ i, manager.Absent (calls i).Draws)
    (hrun : Run Interleaved.step (fun _ _ => True) (begin env calls manager) is c) :
    (∀ i keyId message hardwareSignature signature,
      calls i = .sign keyId message hardwareSignature →
      c.rest i = .done (.signature (.ok signature)) →
      Signed verifies keyId message hardwareSignature signature c.state) ∧
    ∀ i, c.rest i = .panicked → c.state.Exhausted env := by
  have hkept := ((keeping_begin hcrypto hfresh hsound habsent).run (rely_of_changes calls) hrun).2
  refine ⟨?_, fun i hpanic => hkept.of_panicked hpanic⟩
  intro i keyId message hardwareSignature signature hcall hdone
  have hanswer := hkept.returned hdone
  rw [hcall] at hanswer
  exact hanswer

omit [DecidableEq ι] in
/-- While a key is not active, the calls of `sign` that have yet to ask for it get an error. -/
theorem keeping_silent (keyId : H256) {Q : ι → KeyAnswer → KeyManager → Prop}
    {P : KeyManager → Prop} {E : KeyManagerError → Prop}
    (hkept : c.Keeping (Rely env calls) (fun i => Changes env (calls i)) Q fun _ => Exhausted env)
    (hstable : ∀ i, Stable (Rely env calls i) P) (hP : P c.state)
    (hsealed : ∀ m, P m → m.Sealed keyId) (hinactive : E .keyNotActive)
    (hnone : ∀ m, P m → m.keys.lookup keyId = none → E .keyNotFound) :
    c.Keeping (Rely env calls) (fun i => Changes env (calls i))
      (fun k answer _ => ∀ message hardwareSignature,
        calls k = .sign keyId message hardwareSignature → c.rest k = sections env (calls k) →
        ∃ error, answer = .signature (.error error) ∧ E error) fun _ => Exhausted env := by
  intro k
  by_cases hasks : (∃ message hardwareSignature, calls k = .sign keyId message hardwareSignature) ∧
      c.rest k = sections env (calls k)
  · obtain ⟨⟨message, hardwareSignature, hsign⟩, hrest⟩ := hasks
    refine ⟨P, hstable k, hP, ?_⟩
    have hsections : sections env (calls k)
        = .signature <$> sign env keyId message hardwareSignature := by rw [hsign]; rfl
    rw [hrest, hsections]
    refine (sign_meets_of_sealed hsealed hinactive hnone message hardwareSignature).map ?_
    rintro answer m ⟨error, rfl, herror⟩
    exact fun _ _ _ _ => ⟨error, rfl, herror⟩
  · obtain ⟨P', hstable', hP', hmeets⟩ := hkept k
    refine ⟨P', hstable', hP', hmeets.mono (fun _ _ h => h) ?_⟩
    intro answer _ _ message hardwareSignature hsign hrest
    exact absurd ⟨⟨message, hardwareSignature, hsign⟩, hrest⟩ hasks

/-- What the first section of `rotate_key` does to a key that is there. -/
theorem mark_step {j : ι} {rotatedAt : Seconds} {draw : KeyDraw} {entry : KeyEntry}
    {c₁ : Interleaved ι KeyManager KeyAnswer} {o : Unit}
    (hcall : calls j = .rotateKey keyId rotatedAt draw) (hfirst : c.rest j = sections env (calls j))
    (hentry : c.state.keys.lookup keyId = some entry) (hstep : c.step j = some (c₁, o)) :
    c₁.state.Found (fun entry' => (entry.Later env entry' ∧ entry'.metadata.status ≠ .active) ∧
      entry'.metadata.usageCount = entry.metadata.usageCount) keyId := by
  obtain ⟨change, next, hrest, rfl⟩ := Interleaved.step_cases hstep
  rw [hfirst, hcall] at hrest
  cases hrest
  refine ⟨{ entry with metadata := { entry.metadata with
    status := .rotating, rotatedAt := some rotatedAt.val } }, ?_,
    ⟨later_of_status rfl (fun h => by cases h), (fun h => by cases h)⟩, rfl⟩
  dsimp only
  rw [hentry]
  exact AList.lookup_insert _

/-- From the moment at which `rotate_key` has marked a key, and whatever the calls do in whichever
order: the key stays as it is and is never active again, and a call of `sign` that comes later gets
no signature. The key that takes its place is of its type. -/
theorem silent_of_run (hcrypto : Cryptography env verifies) (hfresh : Fresh calls)
    (hsound : manager.Sound env) (habsent : ∀ i, manager.Absent (calls i).Draws)
    (hbefore : Run Interleaved.step (fun _ _ => True) (begin env calls manager) is c)
    {j : ι} {rotatedAt : Seconds} {draw : KeyDraw} {entry : KeyEntry}
    {c₁ c' : Interleaved ι KeyManager KeyAnswer} {o : Unit} {js : List ι}
    (hcall : calls j = .rotateKey keyId rotatedAt draw) (hfirst : c.rest j = sections env (calls j))
    (hentry : c.state.keys.lookup keyId = some entry) (hstep : c.step j = some (c₁, o))
    (hafter : Run Interleaved.step (fun _ _ => True) c₁ js c') :
    c'.state.Found (fun entry' => entry'.metadata.status ≠ .active ∧
      entry'.metadata.usageCount = entry.metadata.usageCount ∧
      entry'.encryptedKey = entry.encryptedKey ∧ entry'.publicKey = entry.publicKey) keyId ∧
    (∀ k message hardwareSignature answer, calls k = .sign keyId message hardwareSignature →
      c₁.rest k = sections env (calls k) → c'.rest k = .done answer →
      answer = .signature (.error .keyNotActive)) ∧
    ∀ newKeyId, c'.rest j = .done (.key (.ok newKeyId)) → c'.state.Found (fun new =>
      new.metadata.keyType = entry.metadata.keyType ∧
      new.metadata.hardwareBacked = entry.metadata.hardwareBacked) newKeyId := by
  have hstart := keeping_begin hcrypto hfresh hsound habsent
  have hkept := ((hstart.run (rely_of_changes calls) hbefore).2.step
    (rely_of_changes calls) hstep).2
  have hmarked := mark_step hcall hfirst hentry hstep
  let Marked := Found (fun entry' => (entry.Later env entry' ∧ entry'.metadata.status ≠ .active) ∧
    entry'.metadata.usageCount = entry.metadata.usageCount) keyId
  have hlasting : Stable (SomeChange env) Marked := by
    refine stable_found ?_ keyId
    rintro old new ⟨⟨hlater, hinactive⟩, hcount⟩ hlater'
    obtain ⟨hinactive', hcount'⟩ := hlater'.inactive hinactive
    exact ⟨⟨hlater.trans hlater', hinactive'⟩, hcount'.trans hcount⟩
  have hsealed : ∀ m, Marked m → m.Sealed keyId := by
    rintro m ⟨entry', hlookup, ⟨-, hinactive⟩, -⟩ entry'' hlookup'
    obtain rfl := Option.some.inj (hlookup.symm.trans hlookup')
    exact hinactive
  have hthere : ∀ m, Marked m → m.keys.lookup keyId = none →
      KeyManagerError.keyNotFound = .keyNotActive := by
    rintro m ⟨entry', hlookup, -⟩ hnone
    rw [hlookup] at hnone
    cases hnone
  -- the rules from here on: who has yet to ask for the key gets an error
  have hsilent := keeping_silent (E := fun e => e = .keyNotActive) keyId hkept
    (fun _ => stable_rely hlasting) hmarked hsealed rfl hthere
  obtain ⟨hchanges, hsilent'⟩ := hsilent.run (rely_of_changes calls) hafter
  obtain ⟨entry', hlookup, ⟨hlater, hinactive⟩, hcount⟩ :=
    Interleaved.invariant_of_changes (fun k m m' h hm => hlasting m m' hm ⟨calls k, h⟩) hchanges
      hmarked
  refine ⟨⟨entry', hlookup, hinactive, hcount, hlater.encryptedKey, hlater.publicKey⟩, ?_, ?_⟩
  · intro k message hardwareSignature answer hsign hrest hdone
    obtain ⟨error, rfl, rfl⟩ := hsilent'.returned hdone message hardwareSignature hsign hrest
    rfl
  · intro newKeyId hdone
    have hanswer := (hkept.run (rely_of_changes calls) hafter).2.returned hdone
    rw [hcall] at hanswer
    obtain ⟨keyType, useHardware, ⟨old, hold, -, htype, hhardware⟩, new, hnew, htype',
      hhardware'⟩ := hanswer
    obtain rfl := Option.some.inj (hlookup.symm.trans hold)
    exact ⟨new, hnew, htype'.trans (htype.symm.trans hlater.keyType),
      hhardware'.trans (hhardware.symm.trans hlater.hardwareBacked)⟩

/-- Each stored share is the whole key, whatever the threshold. The key that is recovered from
shares is what the first of them says, and no signature is ever made with it. -/
theorem recovered_of_run (hcrypto : Cryptography env verifies) (hfresh : Fresh calls)
    (hsound : manager.Sound env) (habsent : ∀ i, manager.Absent (calls i).Draws)
    (hrun : Run Interleaved.step (fun _ _ => True) (begin env calls manager) is c) :
    (∀ share ∈ c.state.recoveryShares, ∃ entry, c.state.keys.lookup share.keyId = some entry ∧
      (entry.metadata.status = .active → entry.metadata.hardwareBacked = false →
        ∃ key : Vector UInt8 32, env.decrypt share.encryptedShare = some key.toList ∧
          entry.publicKey = env.verifyingKey key)) ∧
    ∀ r shares newKeyId createdAt now, calls r = .recoverKey shares newKeyId createdAt now →
      (∀ id, c.rest r = .done (.key (.ok id)) → id = newKeyId ∧ ∃ first ∈ shares,
        c.state.Found (fun entry => entry.metadata.status ≠ .active ∧
          entry.encryptedKey = first.encryptedShare) id) ∧
      ∀ k message hardwareSignature answer, calls k = .sign newKeyId message hardwareSignature →
        c.rest k = .done answer → ∃ error, answer = .signature (.error error) := by
  have hstart := keeping_begin hcrypto hfresh hsound habsent
  obtain ⟨hchanges, hkept⟩ := hstart.run (rely_of_changes calls) hrun
  have hsound' : c.state.Sound env :=
    Interleaved.invariant_of_changes (fun _ _ _ h hm => h.sound hm) hchanges hsound
  constructor
  · intro share hshare
    obtain ⟨entry, hlookup, hwhole⟩ := hsound'.shares share hshare
    refine ⟨entry, hlookup, fun hactive hsoftware => ?_⟩
    obtain ⟨key, hencrypted, hpublic⟩ := hsound'.keys _ entry hlookup hactive hsoftware
    refine ⟨key, ?_, hpublic⟩
    rw [hwhole hsoftware]
    exact hcrypto.decrypt _ _ hencrypted
  · intro r shares newKeyId createdAt now hcall
    constructor
    · intro id hdone
      have hanswer := hkept.returned hdone
      rw [hcall] at hanswer
      exact hanswer
    · -- nobody generates a key at the id of the recovered one
      have hno : ∀ i, ¬ (calls i).Generates newKeyId := by
        intro i hgenerates
        have hdraws : (calls i).Draws newKeyId := by
          cases hi : calls i with
          | recoverKey =>
            rw [hi] at hgenerates
            exact hgenerates.elim
          | _ =>
            rw [hi] at hgenerates
            exact hgenerates
        have hr : (calls r).Draws newKeyId := by rw [hcall]; rfl
        obtain rfl := hfresh.apart i r newKeyId hdraws hr
        rw [hcall] at hgenerates
        exact hgenerates
      have hlasting : ∀ i, Stable (Rely env calls i) (Sealed newKeyId) := by
        rintro i m m' hm ⟨j, -, h⟩
        exact h.sealed newKeyId hm (hno j)
      have hsealed : manager.Sealed newKeyId := by
        intro entry hlookup
        have hr : (calls r).Draws newKeyId := by rw [hcall]; rfl
        rw [habsent r newKeyId hr] at hlookup
        cases hlookup
      have hsilent := ((keeping_silent (E := fun _ => True) newKeyId hstart hlasting hsealed
        (fun _ h => h) trivial fun _ _ _ => trivial).run (rely_of_changes calls) hrun).2
      intro k message hardwareSignature answer hsign hdone
      obtain ⟨error, heq, -⟩ := hsilent.returned hdone message hardwareSignature hsign rfl
      exact ⟨error, heq⟩

/-! ### A sample -/

/-- Ciphers that do nothing, and signatures that anyone can make. -/
def sampleKeyEnv : KeyEnv where
  toEnv := (sampleKeccakEnv true).toEnv
  encrypt := some
  decrypt := some
  verifyingKey key := key.toList
  signature key message := key.toList ++ message
  sha3 bytes := Vector.ofFn fun i => bytes.getD i 0

/-- What it is to verify here. -/
def sampleVerifies (publicKey message signature : List UInt8) : Prop :=
  signature = publicKey ++ message

theorem sampleCryptography : Cryptography sampleKeyEnv sampleVerifies :=
  ⟨fun _ _ h => h.symm, fun _ _ => rfl⟩

/-- The draw of a key. -/
def sampleKeyDraw (n : UInt8) : KeyDraw :=
  ⟨Vector.replicate 32 n, Vector.replicate 32 7, .error .keyNotFound, .ofNat 0, .ofNat 0⟩

/-- A manager with one key, of which a share is stored. -/
def sampleManager : KeyManager where
  rotationIntervalDays := 30
  keys := AList.insert (Vector.replicate 32 9) ⟨⟨Vector.replicate 32 9, .signing, .active, 0, none,
    none, 0, false⟩, List.replicate 32 7, List.replicate 32 7⟩ ∅
  hardwareInterface := false
  recoveryShares := [⟨Vector.replicate 32 0, Vector.replicate 32 9, 0, List.replicate 32 7,
    Vector.replicate 20 0⟩]

theorem sound_sampleManager : sampleManager.Sound sampleKeyEnv := by
  have hkey : ∀ id entry, sampleManager.keys.lookup id = some entry →
      id = Vector.replicate 32 9 ∧ entry = ⟨⟨Vector.replicate 32 9, .signing, .active, 0, none,
        none, 0, false⟩, List.replicate 32 7, List.replicate 32 7⟩ := by
    intro id entry hlookup
    obtain ⟨rfl, rfl⟩ | ⟨-, hlookup⟩ := lookup_insert_eq_some.mp hlookup
    · exact ⟨rfl, rfl⟩
    · cases hlookup
  constructor
  · intro id entry hlookup
    obtain ⟨-, rfl⟩ := hkey id entry hlookup
    exact fun _ _ => ⟨Vector.replicate 32 7, rfl, rfl⟩
  · intro share hshare
    obtain rfl := List.mem_singleton.mp hshare
    exact ⟨_, AList.lookup_insert _, fun _ => rfl⟩

/-- Two calls. -/
def sampleCalls (first second : KeyCall) : Bool → KeyCall
  | false => first
  | true => second

/-- The second call draws no ids, and the first one at most one. -/
theorem fresh_sampleCalls {first second : KeyCall} (hsecond : ∀ id, ¬ second.Draws id)
    (hone : ∀ keyType order clock rotatedAt draws,
      first ≠ .batchRotate keyType order clock rotatedAt draws) :
    Fresh (sampleCalls first second) := by
  constructor
  · intro i j id hi hj
    cases i with
    | true => exact absurd hi (hsecond id)
    | false =>
      cases j with
      | true => exact absurd hj (hsecond id)
      | false => rfl
  · intro i keyType order clock rotatedAt draws hcall
    cases i with
    | false => exact absurd hcall (hone keyType order clock rotatedAt draws)
    | true =>
      have hdraws : second.Draws (draws 0).keyId := by
        rw [show second = _ from hcall]
        exact ⟨0, rfl⟩
      exact absurd hdraws (hsecond _)

theorem absent_sampleCalls {first second : KeyCall} {keyId : H256}
    (hfirst : ∀ id, first.Draws id → id = keyId) (hsecond : ∀ id, ¬ second.Draws id)
    (hkeyId : keyId ≠ Vector.replicate 32 9) (i : Bool) :
    sampleManager.Absent (sampleCalls first second i).Draws := by
  intro id hid
  cases i with
  | false =>
    obtain rfl := hfirst id hid
    exact lookup_insert_eq_none.mpr ⟨hkeyId, rfl⟩
  | true => exact absurd hid (hsecond id)

/-- A key is generated, and then it signs. -/
theorem verifies_of_run_sample :
    ∃ c, Run Interleaved.step (fun _ _ => True) (begin sampleKeyEnv (sampleCalls
        (.generateKey .signing false (sampleKeyDraw 1))
        (.sign (Vector.replicate 32 1) [5] (.ok []))) sampleManager) [false, true] c ∧
      Signed sampleVerifies (Vector.replicate 32 1) [5] (.ok [])
        (List.replicate 32 7 ++ [5]) c.state := by
  have hsome : (replay Interleaved.step (begin sampleKeyEnv (sampleCalls
      (.generateKey .signing false (sampleKeyDraw 1))
      (.sign (Vector.replicate 32 1) [5] (.ok []))) sampleManager) [false, true]).isSome := by
    decide +kernel
  have hrun := run_of_replay (Option.some_get hsome).symm
  refine ⟨_, hrun, (verifies_of_run sampleCryptography ?_ sound_sampleManager ?_ hrun).1 true
    (Vector.replicate 32 1) [5] (.ok []) _ rfl ?_⟩
  · exact fresh_sampleCalls (fun _ h => h) fun _ _ _ _ _ h => by cases h
  · exact absent_sampleCalls (fun _ h => h) (fun _ h => h) (by decide)
  · rfl

/-- The key is rotated by one call and asked for by another. -/
def sampleRotating : Bool → KeyCall :=
  sampleCalls (.rotateKey (Vector.replicate 32 9) (.ofNat 5) (sampleKeyDraw 1))
    (.sign (Vector.replicate 32 9) [5] (.ok []))

/-- Nobody has started. -/
def sampleRotation : Interleaved Bool KeyManager KeyAnswer :=
  begin sampleKeyEnv sampleRotating sampleManager

/-- It has been marked. -/
def sampleMarked : Interleaved Bool KeyManager KeyAnswer :=
  (sampleRotation.step false).elim sampleRotation (·.1)

/-- The call of `sign` comes while the rotation is not over, or after it. -/
theorem silent_of_run_sample :
    ∃ c', Run Interleaved.step (fun _ _ => True) sampleMarked [false, true, false] c' ∧
      c'.state.Found (fun entry => entry.metadata.status ≠ .active ∧
        entry.metadata.usageCount = 0 ∧ entry.encryptedKey = List.replicate 32 7 ∧
        entry.publicKey = List.replicate 32 7) (Vector.replicate 32 9) := by
  have hsome : (replay Interleaved.step sampleMarked [false, true, false]).isSome := by
    decide +kernel
  have hrun := run_of_replay (Option.some_get hsome).symm
  have hstart : Run Interleaved.step (fun _ _ => True)
      (begin sampleKeyEnv sampleRotating sampleManager) [] sampleRotation := .nil
  have hstep : sampleRotation.step false = some (sampleMarked, ()) := rfl
  refine ⟨_, hrun, (silent_of_run sampleCryptography ?_ sound_sampleManager ?_ hstart rfl rfl
    (AList.lookup_insert _) hstep hrun).1⟩
  · exact fresh_sampleCalls (fun _ h => h) fun _ _ _ _ _ h => by cases h
  · exact absent_sampleCalls (fun _ h => h) (fun _ h => h) (by decide)

/-- A key is recovered from one share, and then it is asked for a signature. -/
theorem recovered_of_run_sample :
    ∃ c, Run Interleaved.step (fun _ _ => True) (begin sampleKeyEnv (sampleCalls
        (.recoverKey sampleManager.recoveryShares (Vector.replicate 32 1) (.ofNat 0) (.ofNat 0))
        (.sign (Vector.replicate 32 1) [5] (.ok []))) sampleManager) [false, true] c ∧
      ∃ first ∈ sampleManager.recoveryShares, c.state.Found (fun entry =>
        entry.metadata.status ≠ .active ∧ entry.encryptedKey = first.encryptedShare)
        (Vector.replicate 32 1) := by
  have hsome : (replay Interleaved.step (begin sampleKeyEnv (sampleCalls
      (.recoverKey sampleManager.recoveryShares (Vector.replicate 32 1) (.ofNat 0) (.ofNat 0))
      (.sign (Vector.replicate 32 1) [5] (.ok []))) sampleManager) [false, true]).isSome := by
    decide +kernel
  have hrun := run_of_replay (Option.some_get hsome).symm
  refine ⟨_, hrun, (((recovered_of_run sampleCryptography ?_ sound_sampleManager ?_ hrun).2 false
    _ _ _ _ rfl).1 (Vector.replicate 32 1) ?_).2⟩
  · exact fresh_sampleCalls (fun _ h => h) fun _ _ _ _ _ h => by cases h
  · exact absent_sampleCalls (fun _ h => h) (fun _ h => h) (by decide)
  · rfl

end KeyManager

end InterBit.Security
