import SigmaQuery.Log
import SigmaQuery.Main
import SigmaQuery.Measurement.Report
import SigmaQuery.Package
import SigmaQuery.Proofs.AlertThresholds
import SigmaQuery.Proofs.DocumentMerging
import SigmaQuery.Proofs.FailedRuns
import SigmaQuery.Proofs.FieldNames
import SigmaQuery.Proofs.FileConversion
import SigmaQuery.Proofs.FilterLinking
import SigmaQuery.Proofs.FilterTruth
import SigmaQuery.Proofs.GrepMeaning
import SigmaQuery.Proofs.Idempotence
import SigmaQuery.Proofs.LogSourceMeaning
import SigmaQuery.Proofs.QueryCoverage
import SigmaQuery.Proofs.SearchRuns
import SigmaQuery.Proofs.Selections
import SigmaQuery.Proofs.SingleValues
import SigmaQuery.Proofs.TableSelection
import SigmaQuery.Workload.Checks
