import NodeBus.Command.Request
import NodeBus.Command.Response

/-!
# Command payloads

What a payload that is read as a request looks like, and what the payload of a
response is read as.
-/

namespace NodeBus.Command

theorem Request.key_of_make {key : Key} {params : List UInt8} {r : Request}
    (h : make key params = .ok r) : r.key = key ∧ r.params = params := by
  rw [make] at h
  split at h
  · cases h
    exact ⟨rfl, rfl⟩
  · cases h

/-- A payload that is read as a request starts with the two bytes of its key. -/
theorem Request.front_of_ofPayload {payload : List UInt8} {r : Request}
    (h : ofPayload payload = .ok r) :
    payload.take 2 = [r.key.cluster.byte, r.key.id] ∧
      Cluster.ofByte r.key.cluster.byte = r.key.cluster := by
  simp only [ofPayload] at h
  split at h
  · split at h
    · cases h
    split at h
    · cases h
    obtain ⟨hkey, _⟩ := key_of_make h
    rw [hkey]
    exact ⟨by simp, by rw [Cluster.byte_ofByte]⟩
  · cases h

/-- The payload of a response is read as its key, its status and its data. -/
theorem Response.ofPayload_of_parts (key : Key) (status : Status) {data : List UInt8}
    (h : data.length ≤ maxData) :
    ∃ r, ofPayload (key.cluster.byte :: key.id :: status.byte :: .ofNat data.length :: data) =
        .ok r ∧
      r.key = ⟨.ofByte key.cluster.byte, key.id⟩ ∧ r.status = status ∧ r.data = data := by
  have hlength : (UInt8.ofNat data.length).toNat = data.length := by
    rw [UInt8.toNat_ofNat']
    simp only [maxData] at h
    exact Nat.mod_eq_of_lt (by omega)
  refine ⟨((empty ⟨.ofByte key.cluster.byte, key.id⟩).setStatus status).put data h, ?_,
    rfl, rfl, rfl⟩
  simp only [ofPayload, hlength, Nat.not_lt_of_le h, if_false, ne_eq, not_true_eq_false,
    Status.ofByte?_byte, setData, h, dite_true]

end NodeBus.Command
