import Mathlib

namespace LibOp.Foundation

open List

def space : UInt8 := 0x20

def minus : UInt8 := 0x2D

def slash : UInt8 := 0x2F

def underscore : UInt8 := 0x5F

def cString (cells : List UInt8) : List UInt8 := cells.takeWhile (· != 0)

variable {α : Type*}

def store (cells : List α) (i : Nat) (value : α) : Option (List α) :=
  if i < cells.length then some (cells.set i value) else none

def storeAll (cells : List α) (i : Nat) : List α → Option (List α)
  | [] => some cells
  | value :: values => (store cells i value).bind fun cells => storeAll cells (i + 1) values

lemma store_of_lt (inside : i < cells.length) (value : α) :
    store cells i value = some (cells.set i value) := if_pos inside

lemma take_succ_set {cells : List α} {i : Nat} (inside : i < cells.length) (value : α) :
    (cells.set i value).take (i + 1) = cells.take i ++ [value] := by
  rw [take_add_one, take_set_of_le (Nat.le_refl i), getElem?_set_self inside]
  rfl

lemma storeAll_eq (cells : List α) (i : Nat) (values : List α) (inside : i + values.length ≤ cells.length) :
    storeAll cells i values = some (cells.take i ++ values ++ cells.drop (i + values.length)) := by
  induction values generalizing cells i with
  | nil => simp [storeAll]
  | cons value values ih =>
    rw [length_cons] at inside
    have room : i < cells.length := by omega
    rw [storeAll, store_of_lt room, Option.bind_some, ih _ _ (by rw [length_set]; omega), take_succ_set room,
      drop_set_of_lt (by omega)]
    rw [append_assoc (cells.take i), singleton_append, length_cons, Nat.add_right_comm, Nat.add_assoc]

variable {p : α → Bool} {l tail : List α}

def Stops (p : α → Bool) (l : List α) : Prop := ∀ a ∈ l.head?, p a = false

@[simp] lemma stops_nil : Stops p [] := fun a none => by cases none

@[simp] lemma stops_cons : Stops p (a :: l) ↔ p a = false := by simp [Stops]

lemma Stops.dropWhile (stops : Stops p tail) (all : ∀ a ∈ l, p a = true) : (l ++ tail).dropWhile p = tail := by
  rw [dropWhile_append_of_pos all]
  cases tail with
  | nil => rfl
  | cons a tail => rw [dropWhile_cons_of_neg (by simpa using stops)]

lemma Stops.takeWhile (stops : Stops p tail) (all : ∀ a ∈ l, p a = true) : (l ++ tail).takeWhile p = l := by
  rw [takeWhile_append_of_pos all]
  cases tail with
  | nil => simp
  | cons a tail => rw [takeWhile_cons_of_neg (by simpa using stops), append_nil]

lemma cString_append_zero {text : List UInt8} (noNul : 0 ∉ text) (rest : List UInt8) :
    cString (text ++ 0 :: rest) = text := by
  apply Stops.takeWhile (stops_cons.mpr rfl)
  intro c mem
  rw [bne_iff_ne]
  rintro rfl
  exact noNul mem

open Nat

def bigEndian (bytes : List UInt8) : Nat :=
  bytes.foldl (fun v byte => v <<< 8 ||| byte.toNat) 0

def bigEndianBytes : Nat → Nat → List UInt8
  | 0, _ => []
  | n + 1, v => UInt8.ofNat (v >>> (8 * n)) :: bigEndianBytes n v

@[simp] lemma bigEndianBytes_length (n v : Nat) : (bigEndianBytes n v).length = n := by
  induction n with
  | zero => rfl
  | succ n ih => rw [bigEndianBytes, length_cons, ih]

lemma shift_or_byte (v : Nat) (byte : UInt8) : v <<< 8 ||| byte.toNat = v * 256 + byte.toNat := by
  rw [shiftLeft_eq, mul_comm, ← two_pow_add_eq_or_of_lt byte.toNat_lt, mul_comm]

lemma foldl_bigEndianBytes (n v start : Nat) :
    (bigEndianBytes n v).foldl (fun v byte => v <<< 8 ||| byte.toNat) start = start * 256 ^ n + v % 256 ^ n := by
  induction n generalizing start with
  | zero => simp [bigEndianBytes, mod_one]
  | succ n ih =>
    have digit : (UInt8.ofNat (v >>> (8 * n))).toNat = v / 256 ^ n % 256 := by
      rw [UInt8.toNat_ofNat', shiftRight_eq_div_pow, Nat.pow_mul]
    rw [bigEndianBytes, foldl_cons, ih, shift_or_byte, digit, pow_succ, mod_mul]
    ring

lemma bigEndian_bigEndianBytes (fits : v < 256 ^ n) : bigEndian (bigEndianBytes n v) = v := by
  rw [bigEndian, foldl_bigEndianBytes, zero_mul, zero_add, mod_eq_of_lt fits]

variable (bytes : List UInt8)

lemma bigEndian_snoc (byte : UInt8) : bigEndian (bytes ++ [byte]) = bigEndian bytes * 256 + byte.toNat := by
  rw [bigEndian, foldl_append]
  exact shift_or_byte _ byte

lemma bigEndian_lt : bigEndian bytes < 256 ^ bytes.length := by
  induction bytes using List.reverseRecOn with
  | nil => decide
  | append_singleton bytes byte ih =>
    have small := byte.toNat_lt
    rw [bigEndian_snoc, length_append, length_singleton, pow_succ]
    omega

lemma bigEndianBytes_snoc (n v : Nat) : bigEndianBytes (n + 1) v = bigEndianBytes n (v / 256) ++ [UInt8.ofNat v] := by
  induction n with
  | zero => rfl
  | succ n ih =>
    rw [bigEndianBytes, ih, bigEndianBytes, cons_append, mul_succ, add_comm, shiftRight_add, shiftRight_eq_div_pow v 8]

lemma bigEndianBytes_bigEndian : bigEndianBytes bytes.length (bigEndian bytes) = bytes := by
  induction bytes using List.reverseRecOn with
  | nil => rfl
  | append_singleton bytes byte ih =>
    have small := byte.toNat_lt
    have upper : (bigEndian bytes * 256 + byte.toNat) / 256 = bigEndian bytes := by omega
    have lower : UInt8.ofNat (bigEndian bytes * 256 + byte.toNat) = byte := by
      rw [← UInt8.toNat_inj, UInt8.toNat_ofNat']
      omega
    rw [length_append, length_singleton, bigEndianBytes_snoc, bigEndian_snoc, upper, lower, ih]

end LibOp.Foundation
