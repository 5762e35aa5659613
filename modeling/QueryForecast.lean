import QueryForecast.Main
import QueryForecast.Proofs.Boosting.Dividing
import QueryForecast.Proofs.Boosting.Rounds
import QueryForecast.Proofs.Boosting.Searching
import QueryForecast.Proofs.Feature.Categories
import QueryForecast.Proofs.Feature.Halved
import QueryForecast.Proofs.Feature.OrderStatistic
import QueryForecast.Proofs.Feature.Paired
import QueryForecast.Proofs.Feature.Permuted
import QueryForecast.Proofs.Log.Conserved
import QueryForecast.Proofs.Log.Flushed
import QueryForecast.Proofs.Log.Nulls
import QueryForecast.Proofs.Log.Parts
import QueryForecast.Proofs.Log.Valued
import QueryForecast.Proofs.Model.Ranking
import QueryForecast.Proofs.Model.Resaved
import QueryForecast.Proofs.Numeric.Nearest
import QueryForecast.Proofs.Random.Portioned
import QueryForecast.Proofs.Serving.Apart
import QueryForecast.Proofs.Serving.Bounded
import QueryForecast.Proofs.Serving.Confidence
import QueryForecast.Proofs.Serving.Filtered
import QueryForecast.Proofs.Serving.Monotone
import QueryForecast.Proofs.Serving.Prefilled
import QueryForecast.Proofs.Serving.Recorded
import QueryForecast.Proofs.Serving.Slot
import QueryForecast.Proofs.Serving.Total
import QueryForecast.Proofs.Training.Accounted
import QueryForecast.Proofs.Training.Matrix
import QueryForecast.Proofs.Training.Parted
import QueryForecast.Proofs.Training.Saved
import QueryForecast.Proofs.Training.Uncorrelated
import QueryForecast.Proofs.Training.Unfamiliar
import QueryForecast.Proofs.Training.Unmeasured
import QueryForecast.Proofs.Training.Unseen
import QueryForecast.Serving.Estimator
