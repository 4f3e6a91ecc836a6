import InterBit.Core.LittleEndian
import InterBit.Mev.ThresholdEncryption

/-!
# The layout of an encrypted transaction

`encrypt_transaction` writes the sender, the nonce, the price of gas and the data one after the
other, and `parse_transaction` reads them at fixed offsets. What is behind the first sixty bytes is
the data, so that every string of at least sixty bytes is the layout of one transaction.
-/

namespace InterBit.Mev

/-- The four parts of a layout are read where they have been written. -/
theorem layout_parts {sender nonce gasPrice : List UInt8} (data : List UInt8)
    (hsender : sender.length = 20) (hnonce : nonce.length = 8) (hprice : gasPrice.length = 32) :
    let bytes := sender ++ nonce ++ gasPrice ++ data
    bytes.take 20 = sender ∧ (bytes.drop 20).take 8 = nonce ∧ (bytes.drop 28).take 32 = gasPrice ∧
      bytes.drop 60 = data := by
  intro bytes
  have htail : bytes = sender ++ (nonce ++ (gasPrice ++ data)) := by
    rw [← List.append_assoc, ← List.append_assoc]
  have h20 : bytes.drop 20 = nonce ++ (gasPrice ++ data) := by
    rw [htail, ← hsender, List.drop_left]
  have h28 : bytes.drop 28 = gasPrice ++ data := by
    rw [show 28 = 20 + nonce.length by rw [hnonce], ← List.drop_drop, h20, List.drop_left]
  refine ⟨?_, ?_, ?_, ?_⟩
  · rw [htail, ← hsender, List.take_left]
  · rw [h20, ← hnonce, List.take_left]
  · rw [h28, ← hprice, List.take_left]
  · rw [show 60 = 28 + gasPrice.length by rw [hprice], ← List.drop_drop, h28, List.drop_left]

/-- The parts of sixty bytes and more make up the whole. -/
theorem append_parts (bytes : List UInt8) :
    bytes.take 20 ++ (bytes.drop 20).take 8 ++ (bytes.drop 28).take 32 ++ bytes.drop 60
      = bytes := by
  have hlast : (bytes.drop 28).take 32 ++ bytes.drop 60 = bytes.drop 28 := by
    rw [← @List.drop_drop _ 32 28, List.take_append_drop]
  have hmiddle : (bytes.drop 20).take 8 ++ bytes.drop 28 = bytes.drop 20 := by
    rw [← @List.drop_drop _ 8 20, List.take_append_drop]
  rw [List.append_assoc, hlast, List.append_assoc, hmiddle, List.take_append_drop]

/-- The sender of a layout of twenty bytes and more. -/
theorem toList_sender {bytes : List UInt8} (h : 20 ≤ bytes.length) :
    (Vector.ofFn fun i : Fin 20 => bytes.getD i 0).toList = bytes.take 20 := by
  refine List.ext_getElem ?_ fun i hi _ => ?_
  · rw [Vector.length_toList, List.length_take, Nat.min_eq_left h]
  · rw [Vector.length_toList] at hi
    rw [Vector.getElem_toList, Vector.getElem_ofFn, List.getElem_take, List.getD_eq_getElem?_getD,
      List.getElem?_eq_getElem (by omega), Option.getD_some]

theorem length_transactionBytes (tx : ProtectedTransaction) :
    (transactionBytes tx).length = 60 + tx.data.length := by
  rw [transactionBytes, List.length_append, List.length_append, List.length_append,
    Vector.length_toList, length_toLeBytes, length_toLeBytes]

/-- What has been written for a transaction is parsed as the transaction; and what is parsed is
every string of at least sixty bytes, which is written again for the transaction. -/
theorem transaction_codec (txHash : H256) (now : Seconds) :
    (∀ tx, parseTransaction (transactionBytes tx) txHash now
      = .ok { tx with txHash, protectionType := .thresholdEncrypted, timestamp := now.val }) ∧
    ∀ bytes, ((∃ tx, parseTransaction bytes txHash now = .ok tx) ↔ 60 ≤ bytes.length) ∧
      ∀ tx, parseTransaction bytes txHash now = .ok tx → transactionBytes tx = bytes := by
  constructor
  · intro tx
    have hlength := length_transactionBytes tx
    -- the parts stand at 0, 20, 28 and 60
    obtain ⟨hsender, hnonce, hprice, hdata⟩ := layout_parts tx.data
      (@Vector.length_toList _ _ tx.sender) (length_toLeBytes 8 tx.nonce)
      (length_toLeBytes 32 tx.gasPrice)
    have hvector : (Vector.ofFn fun i : Fin 20 => (transactionBytes tx).getD i 0) = tx.sender :=
      Vector.toList_inj.mp ((toList_sender (by omega)).trans hsender)
    rw [parseTransaction, if_neg (by omega), hvector]
    unfold transactionBytes
    rw [hnonce, hprice, hdata, @ofNat_ofLeBytes_toLeBytes 64 8 rfl,
      @ofNat_ofLeBytes_toLeBytes 256 32 rfl]
  · intro bytes
    by_cases hshort : bytes.length < 60
    · have herror : ∀ tx, parseTransaction bytes txHash now ≠ .ok tx := fun tx h => by
        rw [parseTransaction, if_pos hshort] at h
        cases h
      refine ⟨iff_of_false (fun ⟨tx, h⟩ => herror tx h) (by omega), fun tx h => ?_⟩
      exact absurd h (herror tx)
    -- from 60 bytes on every part is there
    · have hnonce : ((bytes.drop 20).take 8).length = 8 := by
        rw [List.length_take, List.length_drop]
        omega
      have hprice : ((bytes.drop 28).take 32).length = 32 := by
        rw [List.length_take, List.length_drop]
        omega
      rw [parseTransaction, if_neg hshort]
      refine ⟨iff_of_true ⟨_, rfl⟩ (by omega), fun tx h => ?_⟩
      obtain rfl := Except.ok.inj h
      have hnonce' := @toLeBytes_ofNat_ofLeBytes 64 ((bytes.drop 20).take 8) (by rw [hnonce])
      have hprice' := @toLeBytes_ofNat_ofLeBytes 256 ((bytes.drop 28).take 32) (by rw [hprice])
      rw [hnonce] at hnonce'
      rw [hprice] at hprice'
      rw [transactionBytes, toList_sender (by omega), hnonce', hprice', append_parts]

end InterBit.Mev
