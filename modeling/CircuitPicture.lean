import CircuitPicture.Host
import CircuitPicture.Main
import CircuitPicture.Report
import CircuitPicture.Proofs.ExporterSession
import CircuitPicture.Proofs.GridReading
import CircuitPicture.Proofs.LayoutDecoding
import CircuitPicture.Proofs.PictureText
import CircuitPicture.Proofs.RunOutput
import CircuitPicture.Proofs.VerticalLines
import CircuitPicture.Proofs.GridFaults
import CircuitPicture.Proofs.GridWriting
import CircuitPicture.Proofs.ConfigValidity
import CircuitPicture.Proofs.RunMessages
import CircuitPicture.Proofs.NumberTexts
import CircuitPicture.Proofs.PutCommands
import CircuitPicture.Proofs.PictureFrame
import CircuitPicture.Proofs.PlacementOrder
import CircuitPicture.Proofs.ErasedSymbols
import CircuitPicture.Proofs.ConfigSources
import CircuitPicture.Proofs.RepeatedPlacements
import CircuitPicture.Proofs.GridsBeside
import CircuitPicture.Proofs.JoinedTexts
import CircuitPicture.Proofs.RecordedArithmetic
import CircuitPicture.Proofs.UnroundedLayout
import CircuitPicture.Proofs.GridsAbove
import CircuitPicture.Proofs.ChangedCell
import CircuitPicture.Proofs.ExportCalls
import CircuitPicture.Proofs.NamesInForce
import CircuitPicture.Proofs.WireRows
import CircuitPicture.Proofs.GridShape
import CircuitPicture.Proofs.QuarterTexts
import CircuitPicture.Proofs.LineEndings
import CircuitPicture.Proofs.LineRounds
