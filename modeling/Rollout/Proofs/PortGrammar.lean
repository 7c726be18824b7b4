import Rollout.Port
import Rollout.Proofs.Text
import Mathlib.Data.List.Forall2

/-! What a port entry may be. An entry is a number or two with a colon between them, and after a slash the name of a
protocol; white space around it does not count. A number that is too large is no number at all, so that the text is
malformed, while zero is a number that is out of range. -/

namespace Rollout.Port

variable {cs ds rest : List Char} {m n : Nat} {p : Protocol}

section Grammar

/-- A string of ASCII digits, as long as it likes, and its value. -/
structure Numeral (ds : List Char) (n : Nat) : Prop where
  ne_nil : ds ≠ []
  digits : ∀ d ∈ ds, d.isDigit = true
  value : Nat.ofDigitChars 10 ds 0 = n

/-- What may follow the numbers: nothing, or a slash and the name of a protocol in any letter case. -/
inductive Suffix : List Char → Protocol → Prop
  | absent : Suffix [] .tcp
  | named {name : List Char} {p : Protocol}
      (h : List.Forall₂ (fun c letter => c = letter ∨ c = Char.toUpper letter) name p.name.toList) :
      Suffix ('/' :: name) p

/-- The text of an entry, with its host port, its container port and its protocol. A single number is both ports. -/
inductive Entry : List Char → Nat → Nat → Protocol → Prop
  | single {ds suffix : List Char} {n : Nat} {p : Protocol} (hn : Numeral ds n) (hp : Suffix suffix p) :
      Entry (ds ++ suffix) n n p
  | pair {ds es suffix : List Char} {m n : Nat} {p : Protocol} (hm : Numeral ds m) (hn : Numeral es n)
      (hp : Suffix suffix p) : Entry (ds ++ ':' :: (es ++ suffix)) m n p

def Reads (e : String) (host container : Nat) (protocol : Protocol) : Prop :=
  ∃ t, Text.Trims e.toList t ∧ Entry t host container protocol

def InRange (n : Nat) : Prop := 1 ≤ n ∧ n ≤ 65535

/-- The text holds an entry whose numbers have 16 bits, and one of them is zero. -/
def Zeroed (e : String) : Prop :=
  ∃ host container protocol, Reads e host container protocol ∧ host ≤ 65535 ∧ container ≤ 65535 ∧
    (host = 0 ∨ container = 0)

end Grammar

section Parsing

theorem number?_append (h : Numeral ds n) (hrest : ∀ c, rest.head? = some c → ¬ c.isDigit = true) :
    number? (ds ++ rest) = if n ≤ 65535 then some (n, rest) else none := by
  obtain ⟨htake, hdrop⟩ := Text.span_append h.digits hrest
  have hvalue : digitsValue ds = n := h.value
  unfold number?
  simp only [htake, hdrop, hvalue, if_neg h.ne_nil]

theorem of_number?_eq_some (h : number? cs = some (n, rest)) : n ≤ 65535 ∧ ∃ ds, Numeral ds n ∧ cs = ds ++ rest := by
  unfold number? at h
  simp only at h
  split at h
  · cases h
  rename_i hne
  split at h
  · rename_i hle
    cases h
    refine ⟨hle, cs.takeWhile Char.isDigit, ⟨hne, fun d hd => List.mem_takeWhile_imp hd, rfl⟩, ?_⟩
    exact List.takeWhile_append_dropWhile.symm
  · cases h

theorem isLower_of_mem_name {c : Char} (h : c ∈ p.name.toList) : c.isLower = true := by
  have hall : p.name.toList.all Char.isLower = true := by cases p <;> rfl
  exact List.all_eq_true.1 hall c h

theorem map_toLower_eq_name {name : List Char} :
    name.map Char.toLower = p.name.toList ↔
      List.Forall₂ (fun c letter => c = letter ∨ c = Char.toUpper letter) name p.name.toList :=
  Text.map_toLower_eq_iff fun _ => isLower_of_mem_name

theorem protocol?_eq_some : protocol? cs = some p ↔ Suffix cs p := by
  constructor
  · intro h
    cases cs with
    | nil =>
      cases h
      exact .absent
    | cons c name =>
      simp only [protocol?] at h
      split at h
      · rename_i hc
        subst hc
        refine .named (map_toLower_eq_name.1 ?_)
        split at h
        · cases h; assumption
        · cases h; assumption
        · cases h
      · cases h
  · rintro (_ | h)
    · rfl
    · have hname := map_toLower_eq_name.2 h
      cases p <;> simp only [protocol?, hname] <;> rfl

theorem Suffix.not_isDigit (h : Suffix rest p) : ∀ c, rest.head? = some c → ¬ c.isDigit = true := by
  cases h <;> simp

/-- What follows the first number tells a pair from a single number: no suffix begins with a colon. -/
theorem fields?_eq_some : fields? cs = some (m, n, p) ↔ Entry cs m n p ∧ m ≤ 65535 ∧ n ≤ 65535 := by
  constructor
  · intro h
    unfold fields? at h
    split at h
    · cases h
    · rename_i first rest hfirst
      obtain ⟨hm, ds, hds, rfl⟩ := of_number?_eq_some hfirst
      split at h
      · cases h
      rename_i second suffix hsecond
      obtain ⟨hn, es, hes, rfl⟩ := of_number?_eq_some hsecond
      obtain ⟨p', hp, he⟩ := Option.map_eq_some_iff.1 h
      cases he
      exact ⟨.pair hds hes (protocol?_eq_some.1 hp), hm, hn⟩
    · rename_i first suffix _ hfirst
      obtain ⟨hn, ds, hds, rfl⟩ := of_number?_eq_some hfirst
      obtain ⟨p', hp, he⟩ := Option.map_eq_some_iff.1 h
      cases he
      exact ⟨.single hds (protocol?_eq_some.1 hp), hn, hn⟩
  · rintro ⟨h, hm, hn⟩
    cases h with
    | single hds hp =>
      have hsuffix := protocol?_eq_some.2 hp
      unfold fields?
      rw [number?_append hds hp.not_isDigit, if_pos hm]
      cases hp with
      | absent => rfl
      | named => exact congrArg (Option.map fun p => (m, m, p)) hsuffix
    | pair hds hes hp =>
      unfold fields?
      rw [number?_append hds (by simp), if_pos hm]
      simp only [number?_append hes hp.not_isDigit, if_pos hn, protocol?_eq_some.2 hp, Option.map_some]

theorem fields?_trim {e : String} :
    fields? (Text.trimList e.toList) = some (m, n, p) ↔ Reads e m n p ∧ m ≤ 65535 ∧ n ≤ 65535 := by
  rw [fields?_eq_some]
  constructor
  · rintro ⟨h, hm, hn⟩
    exact ⟨⟨_, Text.trims_trimList _, h⟩, hm, hn⟩
  · rintro ⟨⟨t, ht, h⟩, hm, hn⟩
    rw [ht.trimList_eq]
    exact ⟨h, hm, hn⟩

theorem parseEntry_eq_ok {e : String} {port : ExposedPort} :
    parseEntry e = .ok port ↔ Reads e port.host.toNat port.container.toNat port.protocol ∧
      InRange port.host.toNat ∧ InRange port.container.toNat := by
  unfold parseEntry
  constructor
  · intro h
    split at h
    · cases h
    rename_i m n p hfields
    obtain ⟨hreads, hm, hn⟩ := fields?_trim.1 hfields
    split at h
    · cases h
    cases h
    have hhost : (UInt16.ofNat m).toNat = m := UInt16.toNat_ofNat_of_lt' (by change m < 65536; omega)
    have hcontainer : (UInt16.ofNat n).toNat = n := UInt16.toNat_ofNat_of_lt' (by change n < 65536; omega)
    rw [hhost, hcontainer]
    exact ⟨hreads, ⟨by omega, hm⟩, by omega, hn⟩
  · rintro ⟨hreads, hhost, hcontainer⟩
    rw [fields?_trim.2 ⟨hreads, hhost.2, hcontainer.2⟩]
    have hne : ¬ (port.host.toNat = 0 ∨ port.container.toNat = 0) := by
      unfold InRange at hhost hcontainer
      omega
    simp only [if_neg hne, UInt16.ofNat_toNat]

theorem of_parseEntry_eq_error {e : String} {err : PortError} (h : parseEntry e = .error err) :
    err.spec = e ∧ (err.fault = .outOfRange ∧ Zeroed e ∨ err.fault = .malformed ∧ ¬ Zeroed e) := by
  unfold parseEntry at h
  split at h
  · rename_i hfields
    cases h
    refine ⟨rfl, .inr ⟨rfl, ?_⟩⟩
    rintro ⟨m, n, p, hreads, hm, hn, -⟩
    rw [fields?_trim.2 ⟨hreads, hm, hn⟩] at hfields
    cases hfields
  · rename_i m n p hfields
    obtain ⟨hreads, hm, hn⟩ := fields?_trim.1 hfields
    split at h
    · rename_i hzero
      cases h
      exact ⟨rfl, .inl ⟨rfl, m, n, p, hreads, hm, hn, hzero⟩⟩
    · cases h

/-- An entry is accepted when its text is one with ports in range, and those ports are what it gives. Any other text is
handed back with the error, which is about the range when a number is zero and about the form in all other cases. -/
theorem parseEntry_exact (e : String) :
    (∀ port, parseEntry e = .ok port ↔ Reads e port.host.toNat port.container.toNat port.protocol ∧
      InRange port.host.toNat ∧ InRange port.container.toNat) ∧
    ((¬ ∃ host container protocol, Reads e host container protocol ∧ InRange host ∧ InRange container) →
      ∃ err, parseEntry e = .error err ∧ err.spec = e ∧
        (err.fault.message = "port out of range 1-65535" ↔ Zeroed e) ∧
        (err.fault.message = "expected [host:]container[/tcp|udp]" ↔ ¬ Zeroed e)) := by
  refine ⟨fun port => parseEntry_eq_ok, fun hnone => ?_⟩
  cases h : parseEntry e with
  | ok port => exact absurd ⟨_, _, _, parseEntry_eq_ok.1 h⟩ hnone
  | error err =>
    obtain ⟨hspec, ⟨hfault, hzero⟩ | ⟨hfault, hzero⟩⟩ := of_parseEntry_eq_error h
    all_goals
      refine ⟨err, rfl, hspec, ?_, ?_⟩ <;> simp [hfault, hzero, PortFault.message]

example : parseEntry "\u3000 008080:80/uDp\n" = .ok ⟨8080, 80, .udp⟩ := by decide +kernel

example : parseEntry "80:65536" = .error ⟨"80:65536", .malformed⟩ := by decide +kernel

end Parsing

end Rollout.Port
