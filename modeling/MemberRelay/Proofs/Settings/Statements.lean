import MemberRelay.Proofs.Settings.Overlay
import MemberRelay.Proofs.Toml.Recorded

/-!
# Settings and the statements of their text

Settings come from a table that records each statement of their text once. A text that assigns one
place twice, in whatever spellings, is refused.
-/

namespace MemberRelay.Proofs
open Toml Settings

section Texts

variable {text : String} {es : List Entry} {hs : List Address} {s : Settings}

/-- What the text of a document says, statement by statement. -/
def TextLists (text : String) (es : List Entry) (hs : List Address) : Prop :=
  Lists .start (withoutMark text.toList) es hs

lemma exists_recorded_of_parse (h : parse text = .ok s) :
    ∃ es hs t, TextLists text es hs ∧ Toml.document? text.toList = some t ∧ ofTable t = .ok s ∧
      Proper (.table t) ∧ Recorded es hs t := by
  obtain ⟨t, ht⟩ := exists_document_of_parse h
  obtain ⟨es, hs, hlists, hrecorded⟩ := document?_recorded ht
  have hs' : ofTable t = .ok s :=
    (ofTable_eq_ok_iff (document?_proper ht)).2 ((parse_eq_ok_iff ht).1 h)
  exact ⟨es, hs, t, hlists, ht, hs', document?_proper ht, hrecorded⟩

lemma nodup_of_parse (hlists : TextLists text es hs) (h : parse text = .ok s) :
    (es.map Prod.fst).Nodup ∧ hs.Nodup := by
  obtain ⟨es', hs', t, hlists', -, -, -, hrecorded⟩ := exists_recorded_of_parse h
  obtain ⟨rfl, rfl⟩ := hlists.unique hlists'
  exact ⟨hrecorded.contains.once, hrecorded.once⟩

/-- Settings are read from a table that records the statements of their text, each once and as it
stands there. A text that assigns at one address twice or opens one table twice is refused, and so is
one that no statements make up. -/
theorem parse_records_each_statement (text : String) :
    (∀ s, parse text = .ok s → ∃ es hs t, TextLists text es hs ∧
      Toml.document? text.toList = some t ∧ ofTable t = .ok s ∧ Proper (.table t) ∧
      Recorded es hs t) ∧
    (∀ es hs a, TextLists text es hs → 2 ≤ (es.map Prod.fst).count a ∨ 2 ≤ hs.count a →
      ∃ m, parse text = .error (.config m)) ∧
    ((¬∃ es hs, TextLists text es hs) → ∃ m, parse text = .error (.config m)) := by
  refine ⟨fun s => exists_recorded_of_parse, ?_, ?_⟩
  · intro es hs a hlists htwice
    rcases parse_eq_ok_or_config with ⟨s, h⟩ | hconfig
    · obtain ⟨hentries, hheaders⟩ := nodup_of_parse hlists h
      have hentry := List.nodup_iff_count_le_one.1 hentries a
      have hheader := List.nodup_iff_count_le_one.1 hheaders a
      omega
    · exact hconfig
  · intro hnone
    rcases parse_eq_ok_or_config with ⟨s, h⟩ | hconfig
    · obtain ⟨es, hs, t, hlists, -⟩ := exists_recorded_of_parse h
      exact absurd ⟨es, hs, hlists⟩ hnone
    · exact hconfig

/-- A port that is given once, one that is given again in braces, and a text that says nothing. -/
theorem parse_port_once_or_twice :
    (∃ es hs t, TextLists "rpc.port=1" es hs ∧ Toml.document? "rpc.port=1".toList = some t ∧
      ofTable t = .ok { rpc := { port := 1 } } ∧ Proper (.table t) ∧ Recorded es hs t) ∧
    (∃ m, parse "rpc.port=1\nrpc=\x7bport=2\x7d" = .error (.config m)) ∧
    ∃ m, parse "]" = .error (.config m) := by
  refine ⟨(parse_records_each_statement _).1 _ rfl, ?_, ?_⟩
  · have hinner : key? "port=2\x7d".toList =
        some (([], ⟨"port", "port=2\x7d".toList, "=2\x7d".toList⟩), "=2\x7d".toList) := rfl
    have hbraces : Writes .value "\x7bport=2\x7d".toList [([.name "port"], "2\x7d".toList)] [] :=
      .braces (.pair hinner (.scalar rfl) (.lastPair rfl))
    have hsection : key? "rpc=\x7bport=2\x7d".toList =
        some (([], ⟨"rpc", "rpc=\x7bport=2\x7d".toList, "=\x7bport=2\x7d".toList⟩),
          "=\x7bport=2\x7d".toList) := rfl
    have hdotted : key? "rpc.port=1\nrpc=\x7bport=2\x7d".toList =
        some (([⟨"rpc", "rpc.port=1\nrpc=\x7bport=2\x7d".toList,
            ".port=1\nrpc=\x7bport=2\x7d".toList⟩],
          ⟨"port", "port=1\nrpc=\x7bport=2\x7d".toList, "=1\nrpc=\x7bport=2\x7d".toList⟩),
          "=1\nrpc=\x7bport=2\x7d".toList) := rfl
    have hlists : TextLists "rpc.port=1\nrpc=\x7bport=2\x7d" _ [] :=
      .assign hdotted (.scalar rfl) rfl (.assign hsection hbraces rfl (.done rfl))
    have htwice := (parse_records_each_statement _).2.1 _ _ [.name "rpc", .name "port"] hlists
    exact htwice (.inl (by decide))
  · apply (parse_records_each_statement "]").2.2
    rintro ⟨es, hs, hlists⟩
    cases hlists with
    | done h => cases h
    | skip _ hend => cases hend
    | table h => cases h
    | element h => cases h
    | assign hkey => cases hkey

end Texts

end MemberRelay.Proofs
