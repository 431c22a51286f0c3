import Mathlib.Data.Int.CardIntervalMod

/-!
# Turns

Some parties take turns: the turn of number `k` goes to party `k % parties`. After any number of
turns no party has had two more than another one.
-/

namespace ProofLib

/-- The parties of the first turns. -/
def turns (parties n : Nat) : List Nat := (List.range n).map (fun k => k % parties)

/-- A party has a turn in every full round, and maybe one in the round that is not over. -/
theorem count_turns {parties party : Nat} (hparty : party < parties) (n : Nat) :
    (turns parties n).count party =
      n / parties + if party < n % parties then 1 else 0 := by
  have hround : (turns parties n).count party = Nat.count (fun k => k ≡ party [MOD parties]) n := by
    rw [turns, List.count, List.countP_map, Nat.count]
    refine List.countP_congr fun k _ => ?_
    simp [Nat.ModEq, Nat.mod_eq_of_lt hparty]
  rw [hround, Nat.count_modEq_card n (by omega), Nat.mod_eq_of_lt hparty]

/-- The parties have had as many turns each, up to one. -/
theorem count_turns_le {parties party party' : Nat} (hparty : party < parties)
    (hparty' : party' < parties) (n : Nat) :
    (turns parties n).count party ≤ (turns parties n).count party' + 1 := by
  rw [count_turns hparty, count_turns hparty']
  split <;> split <;> omega

end ProofLib
