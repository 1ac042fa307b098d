/-
  File:      Activity/CatchUp.lean
  Subject:   What an encryption pass stores (`encryptTrip`), whatever else writes to the rows.

  * `Encloses` -- an envelope that decrypts to the content of a plaintext column: its text, or,
    where the track endpoint serves parsed JSON, the same JSON.
-/
import TraxJourney.Activity.System

namespace TraxJourney.Activity

open Lib

variable {Nonce Point : Type} {d : Device Nonce} {m : TrackMath Point}

/-! ## 1. Content -/

/-- Two texts of a column have the same content: the same JSON, where the track is served
    parsed. -/
def SameContent (d : Device Nonce) (v v' : String) : TextColumn → Prop
  | .startLatlngJson | .endLatlngJson => ∃ xs, d.loadsLatlng v = some xs ∧ d.loadsLatlng v' = some xs
  | .elevationProfileJson | .elevationProfileLowResJson =>
    ∃ ps, d.loadsProfile v = some ps ∧ d.loadsProfile v' = some ps
  | _ => v' = v

/-- The envelope `env` decrypts to the content of the column's `text`. -/
def Encloses (d : Device Nonce) (c : TextColumn) (text env : Option String) : Prop :=
  isEncryptedEnvelope env = true ∧ ∃ e v t, env = some e ∧ d.decryptText e = some v ∧
    text = some t ∧ SameContent d t v c

variable {v : Option String}

variable {s : Store} {track : Track}

variable {n : Nonce} {env : Option String}

variable {c : TextColumn} {t : String}

/-- The row's profile columns are still plaintext or not as the payload listed them. -/
def ProfileListed (fields : List TextColumn) (r : ActivityRow) : Prop :=
  if .elevationProfileJson ∈ fields then
    isPlain (r.text .elevationProfileJson) = true ∨ isPlain (r.text .elevationProfileLowResJson) = false
  else isPlain (r.text .elevationProfileJson) = false ∨ .elevationProfileLowResJson ∉ fields

/-- A value for a column of the row: an envelope of its plaintext; for the low-res profile the
    envelope of the full one, or its own. -/
def GoodValue (d : Device Nonce) (r : ActivityRow) (full : Option String) (c : TextColumn)
    (env : Option String) : Prop :=
  (isPlain (r.text c) = true ∧ Encloses d c (r.text c) env) ∨
    (c = .elevationProfileLowResJson ∧ isEncryptedEnvelope env = true ∧ (env = full ∨ env = r.text c))

def BodyGood (d : Device Nonce) (r : ActivityRow) (data : FieldsUpdate) : Prop :=
  ∀ c env, data c = some env → GoodValue d r
    ((data .elevationProfileJson).getD (r.text .elevationProfileJson)) c env

variable {fields : List TextColumn}

variable {nonce : TextColumn → Nonce}

/-- The transaction advances the lock version. -/
def Pending.advances : Pending Point → Bool
  | .refresh _ _ named => named
  | .enrichment _ _ _ => false
  | .fields _ _ held _ => held
  | _ => true

variable {s' : Store} {tailId : ℤ} {p : Pending Point}

def Local.expected? : Local Point → Option ℕ
  | .payloadVersion v => some v
  | .pass _ expected | .trackVersion _ _ _ _ expected | .passTrack _ _ _ _ expected
  | .passPut _ _ _ expected | .passWriting _ _ _ expected => some expected
  | _ => none

/-- The rows whose track the pass has still to read, with the fields that its payload lists. -/
def Local.unread : Local Point → List (ℤ × List TextColumn)
  | .pass todo _ | .passTrack _ _ _ todo _ | .passPut _ _ todo _ | .passWriting _ _ todo _ => todo
  | .trackVersion _ id fields todo _ => (id, fields) :: todo
  | _ => []

/-- The row whose track the pass has read, and not yet written. -/
def Local.served : Local Point → Option ℤ
  | .passTrack _ id _ _ _ | .passPut _ id _ _ => some id
  | .passWriting row _ _ _ => some row.id
  | _ => none

def ServedHolds (d : Device Nonce) : Local Point → ActivityRow → Prop
  | .passTrack track _ fields _ _, r => (∃ s v, serveTrack d s v r = some track) ∧ ProfileListed fields r
  | .passPut data _ _ _, r => BodyGood d r data
  | .passWriting row data _ _, r => r = row ∧ BodyGood d r data
  | _, _ => True

/-- What a pass knows of the rows, as long as the lock version is the one it expects. -/
structure PassHolds (d : Device Nonce) (l : Local Point) (s : Store) : Prop where
  apart : (l.served.toList ++ l.unread.map Prod.fst).Nodup
  reached : ∀ v, l.expected? = some v → v ≤ s.lockVersion
  listed : l.expected? = some s.lockVersion → ∀ a ∈ l.unread, ∀ r ∈ s.rows, r.id = a.1 → ProfileListed a.2 r
  served : l.expected? = some s.lockVersion → ∀ r ∈ s.rows, l.served = some r.id → ServedHolds d l r

variable {l : Local Point}

theorem PassHolds.of_none (he : l.expected? = none) (hu : l.unread = [])
    (hs : l.served = none) : PassHolds d l s where
  apart := by simp [hu, hs]
  reached := fun v hv => by rw [he] at hv; cases hv
  listed := fun hv => by rw [he] at hv; cases hv
  served := fun hv => by rw [he] at hv; cases hv

section Runs

variable {ι : Type}

/-- Every column that a pass changes receives an envelope of the plaintext that it held; but the
    low-res profile may receive the envelope that the full one now holds. -/
def ContentKept (d : Device Nonce) (s s' : Store) : Prop :=
  ∀ r ∈ s.rows, ∀ r' ∈ s'.rows, r'.id = r.id → ∀ c, r'.text c ≠ r.text c →
    (isPlain (r.text c) = true ∧ Encloses d c (r.text c) (r'.text c)) ∨
      (c = .elevationProfileLowResJson ∧ isEncryptedEnvelope (r'.text c) = true ∧
        r'.text c = r'.text .elevationProfileJson)

theorem ContentKept.row (h : ContentKept d s s') (id : ℤ) {r r' : ActivityRow} (hr : s.row id = some r)
    (hr' : s'.row id = some r') (hne : r'.text .summaryPolyline ≠ r.text .summaryPolyline) :
    Encloses d .summaryPolyline (r.text .summaryPolyline) (r'.text .summaryPolyline) := by
  obtain ⟨hmem, hid⟩ := Store.row_some hr
  obtain ⟨hmem', hid'⟩ := Store.row_some hr'
  rcases h r hmem r' hmem' (hid'.trans hid.symm) .summaryPolyline hne with h | ⟨hc, -⟩
  · exact h.2
  · cases hc

end Runs

end TraxJourney.Activity
