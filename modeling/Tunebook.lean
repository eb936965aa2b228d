import Tunebook.Files.Disk
import Tunebook.Main
import Tunebook.Tune.Alike
import Tunebook.Tune.Canonical
import Tunebook.Proofs.Playback.Exactness
import Tunebook.Proofs.Tune.RoundTrip
import Tunebook.Proofs.Tune.Assembly
import Tunebook.Proofs.Tune.Interleaving
import Tunebook.Proofs.Playback.Items
import Tunebook.Proofs.Playback.Timing
import Tunebook.Proofs.Playback.Accidentals
import Tunebook.Proofs.Midi.Balance
import Tunebook.Proofs.Playback.Measures
import Tunebook.Proofs.Playback.ChordSigns
import Tunebook.Proofs.Playback.Rewriting
import Tunebook.Proofs.Token.Coverage
import Tunebook.Proofs.Token.Printing
import Tunebook.Proofs.Token.FieldText
import Tunebook.Proofs.Token.Positions
import Tunebook.Proofs.Tune.RepeatGrammar
import Tunebook.Proofs.Tune.Kinds
import Tunebook.Proofs.Tune.FieldOrder
import Tunebook.Proofs.Feedback.Verdicts
import Tunebook.Proofs.Playback.LeastTicks
import Tunebook.Proofs.Tune.SameValue
import Tunebook.Proofs.Tune.SameMusic
import Tunebook.Proofs.Tune.WideWords
import Tunebook.Proofs.Tune.EmptyRepeats
import Tunebook.Proofs.Tune.Overflow
import Tunebook.Proofs.Midi.Quantity
import Tunebook.Proofs.Midi.Tempo
import Tunebook.Proofs.Midi.Rescaling
import Tunebook.Proofs.Settings.Loading
import Tunebook.Proofs.Settings.Layering
import Tunebook.Proofs.Files.Writing
import Tunebook.Proofs.Command.Ranges
import Tunebook.Proofs.Command.Outcomes
