import Mathlib.Data.List.Forall2
import QueueWatch.Address.Ipv4
import QueueWatch.Proofs.Number.Numeral
import QueueWatch.Proofs.Text.Parts

/-!
# Addresses in text

The text of an address is four octets between dots, each in decimal without leading zeros
(`IsOctet`, `Ipv4.IsHost`). These texts are what is read (`Ipv4.parse?_eq_some_iff`), and what is
written is one of them (`Ipv4.isHost_render`).
-/

namespace QueueWatch

/-- A text is the decimal form of an octet. -/
structure IsOctet (text : List Char) (n : UInt8) : Prop where
  ne_nil : text ≠ []
  digits : ∀ c ∈ text, c.isDigit
  canonical : text.head? = some '0' → text = ['0']
  value : n.toNat = Nat.ofDigitChars 10 text 0

theorem IsOctet.length_le {text : List Char} {n : UInt8} (h : IsOctet text n) :
    text.length ≤ 3 := by
  cases text with
  | nil => exact Nat.zero_le 3
  | cons c s =>
      by_cases hc : c = '0'
      · rw [h.canonical (by rw [hc]; rfl)]
        decide
      · have hvalue := pow_le_ofDigitChars (s := s) (h.digits c List.mem_cons_self) hc
        have hn := n.toNat_lt
        rw [← h.value] at hvalue
        by_contra hlong
        have hmany : 10 ^ 3 ≤ 10 ^ s.length :=
          Nat.pow_le_pow_right (by decide) (by simp at hlong; omega)
        omega

theorem isOctet_toDigits (n : UInt8) : IsOctet (Nat.toDigits 10 n.toNat) n where
  ne_nil := Nat.toDigits_ne_nil
  digits _ hc := Nat.isDigit_of_mem_toDigits (by decide) (by decide) hc
  canonical := toDigits_eq_of_head?
  value := Nat.ofDigitChars_ten_toDigits.symm

/-- A list of readings succeeds if each of them does. -/
theorem mapM_eq_some_iff {α β : Type} {f : α → Option β} {xs : List α} {ys : List β} :
    xs.mapM f = some ys ↔ List.Forall₂ (fun x y => f x = some y) xs ys := by
  induction xs generalizing ys with
  | nil => simp [List.forall₂_nil_left_iff, eq_comm]
  | cons x xs ih =>
      rw [List.mapM_cons, List.forall₂_cons_left_iff, Option.bind_eq_bind,
        Option.bind_eq_some_iff]
      simp only [Option.bind_eq_bind, Option.bind_eq_some_iff, ih, pure, Option.some.injEq]
      constructor
      · rintro ⟨y, hy, rest, hrest, rfl⟩
        exact ⟨y, rest, hy, hrest, rfl⟩
      · rintro ⟨y, rest, hy, hrest, rfl⟩
        exact ⟨y, hy, rest, hrest, rfl⟩

namespace Ipv4

theorem octet?_eq_some_iff {s : List Char} {n : UInt8} : octet? s = some n ↔ IsOctet s n := by
  have hread := fun value => unsignedFrom_eq_ok_iff (n := value) (s := s) (Nat.two_pow_pos 8)
  constructor
  · intro h
    unfold octet? at h
    split at h
    · next hform =>
        split at h
        · next value hvalue =>
            by_cases hs : s = []
            · rw [if_pos hs] at h
              cases h
            · rw [if_neg hs, Option.some.injEq] at h
              rcases (hread value).1 hvalue with ⟨hdigits, hsum, hlt⟩
              have hn : n.toNat = value := by
                rw [← h]
                exact UInt8.toNat_ofNat_of_lt' hlt
              exact ⟨hs, hdigits, hform.2.2, hn.trans hsum⟩
        · cases h
    · cases h
  · intro h
    have hform : s.length ≤ 3 ∧ s.all Char.isDigit ∧ (s.head? = some '0' → s = ['0']) :=
      ⟨h.length_le, List.all_eq_true.2 h.digits, h.canonical⟩
    have hvalue : unsignedFrom 8 0 s = .ok n.toNat :=
      (hread n.toNat).2 ⟨h.digits, h.value, n.toNat_lt⟩
    rw [octet?, if_pos hform, hvalue]
    simp [h.ne_nil]

/-- A text is the written form of an address. -/
def IsHost (text : List Char) (ip : Ipv4) : Prop :=
  ∃ parts, text = ['.'].intercalate parts ∧ List.Forall₂ IsOctet parts ip.octets

theorem not_mem_of_isOctet {text : List Char} {n : UInt8} (h : IsOctet text n) : '.' ∉ text :=
  fun hdot => absurd (h.digits '.' hdot) (by decide)

/-- The texts that are read are the written forms of addresses. -/
theorem parse?_eq_some_iff {s : List Char} {ip : Ipv4} : parse? s = some ip ↔ IsHost s ip := by
  unfold parse?
  rw [Text.pieces_eq_splitOn]
  constructor
  · intro h
    split at h
    · next a b c d hoctets =>
        cases h
        refine ⟨s.splitOn '.', (List.intercalate_splitOn '.').symm, ?_⟩
        rw [octets_ofOctets]
        exact (mapM_eq_some_iff.1 hoctets).imp fun _ _ => octet?_eq_some_iff.1
    · cases h
  · rintro ⟨parts, rfl, hoctets⟩
    have hdots : ∀ part ∈ parts, '.' ∉ part :=
      ((List.forall₂_and_left parts ip.octets).1
        (hoctets.imp fun _ _ hn => ⟨not_mem_of_isOctet hn, hn⟩)).1
    have hne : parts ≠ [] := by
      rintro rfl
      cases hoctets
    have hread : parts.mapM octet? = some ip.octets :=
      mapM_eq_some_iff.2 (hoctets.imp fun _ _ => octet?_eq_some_iff.2)
    rw [List.splitOn_intercalate '.' hdots hne, hread]
    exact congrArg some (ofOctets_octet ip)

/-- The written form of an address has an octet in each of four places. -/
theorem IsHost.exists_octets {text : List Char} {ip : Ipv4} (h : IsHost text ip) :
    ∃ a b c d, text = a ++ '.' :: (b ++ '.' :: (c ++ '.' :: d)) ∧ IsOctet a (ip.octet 3) ∧
      IsOctet b (ip.octet 2) ∧ IsOctet c (ip.octet 1) ∧ IsOctet d (ip.octet 0) := by
  rcases h with ⟨parts, rfl, hoctets⟩
  rw [octets] at hoctets
  rcases hoctets with _ | ⟨ha, _ | ⟨hb, _ | ⟨hc, _ | ⟨hd, _ | _⟩⟩⟩⟩
  exact ⟨_, _, _, _, by simp [List.intercalate, List.intersperse], ha, hb, hc, hd⟩

theorem IsHost.isDigit_or_eq {text : List Char} {ip : Ipv4} (h : IsHost text ip) :
    ∀ c ∈ text, c.isDigit ∨ c = '.' := by
  rcases h.exists_octets with ⟨a, b, c, d, rfl, ha, hb, hc, hd⟩
  intro x hx
  simp only [List.mem_append, List.mem_cons] at hx
  rcases hx with hx | rfl | hx | rfl | hx | rfl | hx
  · exact Or.inl (ha.digits x hx)
  · exact Or.inr rfl
  · exact Or.inl (hb.digits x hx)
  · exact Or.inr rfl
  · exact Or.inl (hc.digits x hx)
  · exact Or.inr rfl
  · exact Or.inl (hd.digits x hx)

/-- What is written is read back. -/
theorem isHost_render (ip : Ipv4) : IsHost ip.render.toList ip := by
  refine ⟨ip.octets.map fun n => Nat.toDigits 10 n.toNat, ?_, ?_⟩
  · rw [render, String.toList_intercalate, List.map_map]
    congr 1
    apply List.map_congr_left
    intro n _
    simp
  · rw [List.forall₂_map_left_iff]
    exact List.forall₂_same.2 fun n _ => isOctet_toDigits n

end Ipv4

end QueueWatch
