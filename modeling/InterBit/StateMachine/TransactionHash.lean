import InterBit.Core.LittleEndian
import InterBit.StateMachine.Transaction

/-!
# What a transaction hash binds

`Transaction::hash` and `sign` of `state_machine/transaction.rs`. The hasher is fed the fields
one after the other, and nothing for a recipient that is absent. All other fields but the data
have a fixed length, so two transactions are fed the same bytes if they are the same, or if one
names a recipient whose bytes the other has for its value and the beginning of its data
(`hashInput_eq_iff`). Every transaction with a recipient has such a double
(`readsAs_withoutRecipient`), and the signature of the one signs the other.
-/

namespace InterBit.StateMachine

namespace Transaction

/-- All fields but the signature are equal. -/
structure SameContent (tx other : Transaction) : Prop where
  nonce : tx.nonce = other.nonce
  sender : tx.sender = other.sender
  recipient : tx.recipient = other.recipient
  value : tx.value = other.value
  data : tx.data = other.data
  gasLimit : tx.gasLimit = other.gasLimit
  gasPrice : tx.gasPrice = other.gasPrice

/-- The bytes of the recipient are those of the other's value, and the others of them begin the
other's data. -/
structure ReadsAs (tx other : Transaction) : Prop where
  nonce : tx.nonce = other.nonce
  sender : tx.sender = other.sender
  shifted : ∃ recipient rest, tx.recipient = some recipient ∧ other.recipient = none ∧
    recipient.toList = toBeBytes 16 other.value ++ rest ∧
    other.data = rest ++ toBeBytes 16 tx.value ++ tx.data
  gasLimit : tx.gasLimit = other.gasLimit
  gasPrice : tx.gasPrice = other.gasPrice

/-- `sign`. -/
def sign (env : Env) (tx : Transaction) (privateKey : Vector UInt8 32) : Transaction :=
  { tx with signature := ⟨27, tx.hash env, privateKey⟩ }

/-! ### The bytes of the fields -/

theorem toBeBytes_inj {w n : Nat} {x y : BitVec w} (hw : w ≤ 8 * n)
    (h : toBeBytes n x = toBeBytes n y) : x = y := by
  rw [← ofBeBytes_toBeBytes x hw, h, ofBeBytes_toBeBytes y hw]

/-- The fields whose length can differ. -/
def middle (tx : Transaction) : List UInt8 :=
  (tx.recipient.map (·.toList)).getD [] ++ (toBeBytes 16 tx.value ++ tx.data)

theorem hashInput_eq (tx : Transaction) :
    tx.hashInput = toBeBytes 8 tx.nonce ++ (tx.sender.toList ++ (tx.middle ++
      (toBeBytes 8 tx.gasLimit ++ toBeBytes 16 tx.gasPrice))) := by
  simp only [hashInput, middle, List.append_assoc]

variable {tx other : Transaction} {recipient : Address}

/-- The fields of fixed length can be told from the others. -/
theorem hashInput_eq_iff_middle :
    tx.hashInput = other.hashInput ↔
      tx.nonce = other.nonce ∧ tx.sender = other.sender ∧ tx.middle = other.middle ∧
        tx.gasLimit = other.gasLimit ∧ tx.gasPrice = other.gasPrice := by
  rw [hashInput_eq, hashInput_eq]
  constructor
  · intro h
    obtain ⟨hnonce, h⟩ := List.append_inj h (by rw [length_toBeBytes, length_toBeBytes])
    obtain ⟨hsender, h⟩ := List.append_inj h (by rw [Vector.length_toList, Vector.length_toList])
    obtain ⟨hmiddle, h⟩ := List.append_inj' h (by simp only [List.length_append, length_toBeBytes])
    obtain ⟨hlimit, hprice⟩ := List.append_inj h (by rw [length_toBeBytes, length_toBeBytes])
    exact ⟨toBeBytes_inj (by decide) hnonce, Vector.toList_inj.mp hsender, hmiddle,
      toBeBytes_inj (by decide) hlimit, toBeBytes_inj (by decide) hprice⟩
  · intro h
    obtain ⟨hnonce, hsender, hmiddle, hlimit, hprice⟩ := h
    rw [hnonce, hsender, hmiddle, hlimit, hprice]

theorem value_data_inj
    (h : toBeBytes 16 tx.value ++ tx.data = toBeBytes 16 other.value ++ other.data) :
    tx.value = other.value ∧ tx.data = other.data := by
  obtain ⟨hvalue, hdata⟩ := List.append_inj h (by rw [length_toBeBytes, length_toBeBytes])
  exact ⟨toBeBytes_inj (by decide) hvalue, hdata⟩

/-- A recipient's bytes in front of the value, against none. -/
theorem middle_eq_iff_shifted (hsome : tx.recipient = some recipient)
    (hnone : other.recipient = none) :
    tx.middle = other.middle ↔ ∃ rest, recipient.toList = toBeBytes 16 other.value ++ rest ∧
      other.data = rest ++ toBeBytes 16 tx.value ++ tx.data := by
  rw [middle, middle, hsome, hnone]
  simp only [Option.map_some, Option.map_none, Option.getD_some, Option.getD_none, List.nil_append]
  constructor
  · intro h
    rcases List.append_eq_append_iff.mp h with ⟨rest, hvalue, hdata⟩ | ⟨rest, hrecipient, hdata⟩
    · -- the value is shorter than a recipient
      have hlen := congrArg List.length hvalue
      rw [length_toBeBytes, List.length_append, Vector.length_toList] at hlen
      omega
    · exact ⟨rest, hrecipient, hdata.trans (List.append_assoc ..).symm⟩
  · intro h
    obtain ⟨rest, hrecipient, hdata⟩ := h
    rw [hrecipient, hdata]
    simp only [List.append_assoc]

/-- The same bytes are fed to the hasher for the same content, or for a recipient that is read as
a value and data. -/
theorem hashInput_eq_iff :
    tx.hashInput = other.hashInput ↔
      tx.SameContent other ∨ tx.ReadsAs other ∨ other.ReadsAs tx := by
  rw [hashInput_eq_iff_middle]
  constructor
  · intro h
    obtain ⟨hnonce, hsender, hmiddle, hlimit, hprice⟩ := h
    -- only a transfer and a creation can share their bytes without being the same
    cases hto : tx.recipient with
    | none =>
      cases hother : other.recipient with
      | none =>
        rw [middle, middle, hto, hother] at hmiddle
        obtain ⟨hvalue, hdata⟩ := value_data_inj hmiddle
        exact Or.inl ⟨hnonce, hsender, hto.trans hother.symm, hvalue, hdata, hlimit, hprice⟩
      | some recipient =>
        obtain ⟨rest, hbytes, hdata⟩ := (middle_eq_iff_shifted hother hto).mp hmiddle.symm
        exact Or.inr (Or.inr ⟨hnonce.symm, hsender.symm,
          ⟨recipient, rest, hother, hto, hbytes, hdata⟩, hlimit.symm, hprice.symm⟩)
    | some recipient =>
      cases hother : other.recipient with
      | none =>
        obtain ⟨rest, hbytes, hdata⟩ := (middle_eq_iff_shifted hto hother).mp hmiddle
        exact Or.inr (Or.inl ⟨hnonce, hsender, ⟨recipient, rest, hto, hother, hbytes, hdata⟩,
          hlimit, hprice⟩)
      | some recipient' =>
        rw [middle, middle, hto, hother] at hmiddle
        -- both recipients have 20 bytes, so the rest begins at one place
        obtain ⟨hbytes, hrest⟩ := List.append_inj hmiddle (by
          simp only [Option.map_some, Option.getD_some, Vector.length_toList])
        have hsame : recipient = recipient' := Vector.toList_inj.mp hbytes
        obtain ⟨hvalue, hdata⟩ := value_data_inj hrest
        exact Or.inl ⟨hnonce, hsender, hto.trans (hsame ▸ hother.symm), hvalue, hdata, hlimit,
          hprice⟩
  · intro h
    rcases h with h | h | h
    · refine ⟨h.nonce, h.sender, ?_, h.gasLimit, h.gasPrice⟩
      rw [middle, middle, h.recipient, h.value, h.data]
    · obtain ⟨recipient, rest, hto, hother, hbytes, hdata⟩ := h.shifted
      exact ⟨h.nonce, h.sender, (middle_eq_iff_shifted hto hother).mpr ⟨rest, hbytes, hdata⟩,
        h.gasLimit, h.gasPrice⟩
    · obtain ⟨recipient, rest, hother, hto, hbytes, hdata⟩ := h.shifted
      exact ⟨h.nonce.symm, h.sender.symm,
        ((middle_eq_iff_shifted hother hto).mpr ⟨rest, hbytes, hdata⟩).symm,
        h.gasLimit.symm, h.gasPrice.symm⟩

theorem ReadsAs.not_sameContent (h : tx.ReadsAs other) : ¬ tx.SameContent other := by
  intro hsame
  obtain ⟨recipient, rest, hto, hother, -⟩ := h.shifted
  have hrecipient := hsame.recipient
  rw [hto, hother] at hrecipient
  cases hrecipient

theorem SameContent.symm (h : tx.SameContent other) : other.SameContent tx :=
  ⟨h.nonce.symm, h.sender.symm, h.recipient.symm, h.value.symm, h.data.symm, h.gasLimit.symm,
    h.gasPrice.symm⟩

/-- Unless two inputs of the hasher collide, the hash binds the content of two transactions if and
only if neither reads as the other. -/
theorem hash_binds_iff (env : Env) (tx other : Transaction)
    (hcollision : env.sha256 tx.hashInput = env.sha256 other.hashInput →
      tx.hashInput = other.hashInput) :
    (tx.hash env = other.hash env → tx.SameContent other) ↔
      ¬ tx.ReadsAs other ∧ ¬ other.ReadsAs tx := by
  have hhash : tx.hash env = other.hash env ↔ tx.hashInput = other.hashInput :=
    ⟨hcollision, fun h => congrArg env.sha256 h⟩
  rw [hhash, hashInput_eq_iff]
  constructor
  · intro h
    exact ⟨fun hreads => hreads.not_sameContent (h (Or.inr (Or.inl hreads))),
      fun hreads => hreads.not_sameContent (h (Or.inr (Or.inr hreads))).symm⟩
  · intro h hsame
    rcases hsame with hsame | hreads | hreads
    · exact hsame
    · exact absurd hreads h.1
    · exact absurd hreads h.2

/-! ### The double of a transaction -/

/-- What a transaction reads as if its recipient is taken for a value. -/
def withoutRecipient (tx : Transaction) (recipient : Address) : Transaction :=
  { tx with
    recipient := none
    value := BitVec.ofNat 128 (ofLeBytes (recipient.toList.take 16).reverse)
    data := recipient.toList.drop 16 ++ toBeBytes 16 tx.value ++ tx.data }

theorem toBeBytes_eq_reverse {w : Nat} (n : Nat) (x : BitVec w) :
    toBeBytes n x = (toLeBytes n x).reverse :=
  List.map_reverse

theorem toBeBytes_withoutRecipient (tx : Transaction) (recipient : Address) :
    toBeBytes 16 (tx.withoutRecipient recipient).value = recipient.toList.take 16 := by
  have hlen : (recipient.toList.take 16).reverse.length = 16 := by
    rw [List.length_reverse, List.length_take, Vector.length_toList]
    rfl
  have hwritten := @toLeBytes_ofNat_ofLeBytes 128 (recipient.toList.take 16).reverse (by rw [hlen])
  rw [hlen] at hwritten
  rw [toBeBytes_eq_reverse, withoutRecipient, hwritten, List.reverse_reverse]

/-- Every transaction with a recipient has a double. -/
theorem readsAs_withoutRecipient {tx : Transaction} (h : tx.recipient = some recipient) :
    tx.ReadsAs (tx.withoutRecipient recipient) where
  nonce := rfl
  sender := rfl
  shifted := by
    refine ⟨recipient, recipient.toList.drop 16, h, rfl, ?_, rfl⟩
    rw [toBeBytes_withoutRecipient, List.take_append_drop]
  gasLimit := rfl
  gasPrice := rfl

/-- A signature carries over to the double. -/
theorem sign_withoutRecipient (env : Env) {tx : Transaction} (h : tx.recipient = some recipient)
    (privateKey : Vector UInt8 32) :
    ((tx.withoutRecipient recipient).sign env privateKey).signature
      = (tx.sign env privateKey).signature := by
  have hinput := hashInput_eq_iff.mpr (Or.inr (Or.inl (readsAs_withoutRecipient h)))
  simp only [sign, hash, hinput]

/-- A transfer of 5 to an account. -/
def sampleTransfer : Transaction where
  nonce := 1
  sender := .replicate 20 7
  recipient := some (.replicate 20 9)
  value := 5
  data := []
  gasLimit := 21000
  gasPrice := 1
  signature := ⟨27, .replicate 32 0, .replicate 32 1⟩

/-- The creation of a contract with the bytes of that account for a value. -/
def sampleCreation : Transaction :=
  { sampleTransfer with
    recipient := none
    value := 0x09090909090909090909090909090909
    data := [9, 9, 9, 9] ++ toBeBytes 16 (5 : U128) }

theorem sampleTransfer_readsAs : sampleTransfer.ReadsAs sampleCreation where
  nonce := rfl
  sender := rfl
  shifted := ⟨.replicate 20 9, [9, 9, 9, 9], rfl, rfl, by decide, rfl⟩
  gasLimit := rfl
  gasPrice := rfl

/-- The transfer and the creation have one hash, whatever the hash function is. -/
theorem sampleTransfer_hash_shared : ¬ ∀ env : Env,
    (env.sha256 sampleTransfer.hashInput = env.sha256 sampleCreation.hashInput →
      sampleTransfer.hashInput = sampleCreation.hashInput) →
    sampleTransfer.hash env = sampleCreation.hash env →
      sampleTransfer.SameContent sampleCreation := by
  intro h
  have hinput : sampleTransfer.hashInput = sampleCreation.hashInput :=
    hashInput_eq_iff.mpr (Or.inr (Or.inl sampleTransfer_readsAs))
  have hsame := h (sampleKeccakEnv true).toEnv (fun _ => hinput)
    (congrArg (sampleKeccakEnv true).sha256 hinput)
  exact sampleTransfer_readsAs.not_sameContent hsame

/-- The transfer and the one with the next nonce. -/
theorem hash_binds_iff_sample :
    (sampleTransfer.hash (sampleKeccakEnv true).toEnv
          = Transaction.hash (sampleKeccakEnv true).toEnv { sampleTransfer with nonce := 2 } →
        sampleTransfer.SameContent { sampleTransfer with nonce := 2 }) ↔
      ¬ sampleTransfer.ReadsAs { sampleTransfer with nonce := 2 } ∧
        ¬ ReadsAs { sampleTransfer with nonce := 2 } sampleTransfer :=
  hash_binds_iff (sampleKeccakEnv true).toEnv sampleTransfer { sampleTransfer with nonce := 2 }
    (fun h => absurd h (by decide))

end Transaction

end InterBit.StateMachine
